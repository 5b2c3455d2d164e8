import BaseText.Proofs.Ahead
import BaseText.Proofs.InRange

/-!
# Stacks that stay in range

Every stack that can be reached shows a tape, and whatever shows a tape is in range. What keeps a
cursor over groups there is where its group starts and how long it is: only the last group may be
short, so that the groups in front of the one at hand are all complete.
-/

namespace BaseText.Proofs

variable {ρ σ α β γ : Type}

section Digits

variable {order : BitOrder} {width count : Nat} {P : σ → Prop}

lemma shift_triple (hwidth : 0 < width) (hword : width * count ≤ 64) {i : Nat} (hi : i < count) :
    Triple P (guardShift order width count i) fun _ => P := by
  have hle : width * (i + 1) ≤ width * count := Nat.mul_le_mul_left width hi
  have hsucc : width * (i + 1) = width * i + width := Nat.mul_succ width i
  have hshift : order.shift width count i < 64 := by
    cases order <;> simp only [BitOrder.shift] <;> omega
  exact fun s hs => ⟨⟨hle, hshift⟩, fun _ _ => hs⟩

lemma sum_triple (hwidth : 0 < width) (hword : width * count ≤ 64) {digits : List (Nat × Nat)}
    (hdigits : ∀ digit ∈ digits, digit.2 < count) (n : Nat) :
    Triple P (guardSum order width count digits n) fun _ => P := by
  induction digits generalizing n with
  | nil => exact .answer fun _ hs => hs
  | cons digit rest ih =>
    apply (shift_triple hwidth hword (hdigits digit (by simp))).bind
    intro distance
    exact ih (fun digit' h => hdigits digit' (by simp [h])) _

lemma digits_triple (hwidth : 0 < width) (hword : width * count ≤ 64) (n : Nat)
    {places : List Nat} (hplaces : ∀ i ∈ places, i < count) :
    Triple P (guardDigits order width count n places) fun _ => P := by
  induction places with
  | nil => exact .answer fun _ hs => hs
  | cons i places ih =>
    apply (shift_triple hwidth hword (hplaces i (by simp))).bind
    intro distance
    apply (ih fun j h => hplaces j (by simp [h])).bind
    intro rest
    exact .answer fun _ hs => hs

lemma repack_safe {width' count' wanted : Nat} {digits : List Nat} (hwidth : 0 < width)
    (hword : width * count ≤ 64) (hlength : digits.length ≤ count) (hwidth' : 0 < width')
    (hmask : width' < 64) (hword' : width' * count' ≤ 64) (hwanted : wanted ≤ count') (s : σ) :
    (guardRepack order width count width' count' wanted digits).safe s := by
  have hplaces : ∀ digit ∈ digits.zipIdx, digit.2 < count := fun digit h =>
    Nat.lt_of_lt_of_le (by simpa using List.snd_lt_of_mem_zipIdx h) hlength
  have hranged : ∀ i ∈ List.range wanted, i < count' := fun i h =>
    Nat.lt_of_lt_of_le (List.mem_range.1 h) hwanted
  refine ⟨⟨hlength, hwanted, hmask⟩, fun _ _ => ?_⟩
  have hsum : Triple (fun _ : σ => True) (guardSum order width count digits.zipIdx 0)
      fun _ _ => True := sum_triple hwidth hword hplaces 0
  exact ((hsum.bind fun n => digits_triple hwidth' hword' n hranged) s trivial).1

end Digits

/-- A group code never gets more units than it has cells for. -/
class FittingCode (ρ : Type) {α β : outParam Type} [GroupCode ρ α β] [GuardedCode ρ] : Prop where
  size_le : ∀ code : ρ, GroupCode.size code ≤ GuardedCode.slots code
  close_safe : ∀ {σ : Type} (code : ρ) (units : List α) (s : σ),
    units.length ≤ GroupCode.size code → (GuardedCode.close code units).safe s
  close_le : ∀ (code : ρ) (units : List α) out ending, units.length ≤ GroupCode.size code →
    GroupCode.close code units = .ok (out, ending) → out.length ≤ GuardedCode.capacity code

section Codes

variable (codec : Codec)

lemma bits_pos : 0 < codec.bits := by
  cases codec <;> simp [Codec.bits]

lemma bits_lt : codec.bits < 64 := by
  cases codec <;> simp [Codec.bits]

lemma groupBytes_le : codec.groupBytes ≤ 5 := by
  cases codec <;> simp [Codec.groupBytes]

lemma groupSymbols_le : codec.groupSymbols ≤ 8 := by
  cases codec <;> simp [Codec.groupSymbols]

lemma bits_groupBytes_le : 8 * codec.groupBytes ≤ 64 := by
  have hle := groupBytes_le codec
  omega

lemma bits_groupSymbols_le : codec.bits * codec.groupSymbols ≤ 64 :=
  group_bits codec ▸ bits_groupBytes_le codec

end Codes

instance : FittingCode Encoding where
  size_le e := groupBytes_le e.codec
  close_safe e bytes s hlength := by
    have hcount := symbolCount_le_groupSymbols e.codec hlength
    refine ⟨?_, fun _ _ => trivial⟩
    apply repack_safe (by omega) (bits_groupBytes_le e.codec) _ (bits_pos e.codec)
      (bits_lt e.codec) (bits_groupSymbols_le e.codec) hcount
    rw [List.length_map]
    exact hlength
  close_le e bytes out ending hlength hclose := by
    have hcells := groupSymbols_le e.codec
    have hcount := symbolCount_le_groupSymbols e.codec hlength
    have hdata := length_dataSymbols e bytes
    have hgroup := (length_groupSymbols e bytes).2
    rw [max_eq_left hcount] at hgroup
    change out.length ≤ 8
    rw [encoding_close] at hclose
    split at hclose
    · rw [← (Prod.mk.inj (Except.ok.inj hclose)).1]
      omega
    · rw [← (Prod.mk.inj (Except.ok.inj hclose)).1]
      omega

lemma length_values_le {d : Decoding} {symbols : List Char}
    (h : symbols.length ≤ d.codec.groupSymbols) :
    (symbols.filterMap d.codec.value?).length ≤ d.codec.groupSymbols :=
  Nat.le_trans (List.length_filterMap_le _ _) h

instance : FittingCode Decoding where
  size_le d := groupSymbols_le d.codec
  close_safe d symbols s hlength := by
    have hvalues := length_values_le hlength
    have hcount := byteCount_le_groupBytes d.codec hvalues
    simp only [GuardedCode.close]
    split
    · trivial
    · refine ⟨?_, fun _ _ => trivial⟩
      exact repack_safe (bits_pos d.codec) (bits_groupSymbols_le d.codec) hvalues (by omega)
        (by omega) (bits_groupBytes_le d.codec) hcount s
  close_le d symbols out ending hlength hclose := by
    obtain ⟨-, rfl, -⟩ := decoding_close_ok hclose
    have hcount := byteCount_le_groupBytes d.codec (length_values_le hlength)
    rw [Decoding.groupBytes, length_bytesOfValues]
    exact Nat.le_trans hcount (groupBytes_le d.codec)

section Seeking

variable [Cursor σ α] [Viewed σ α] [GuardedCursor σ α] [InRange σ]

lemma stepBack_triple (n : Nat) :
    Triple (σ := Anchored σ) Shown (guardStepBack n) fun _ => Shown := by
  induction n with
  | zero => exact .answer fun _ hs => hs
  | succ n ih => exact previous_triple.bind fun _ => ih

lemma stepForth_triple (n : Nat) :
    Triple (σ := Anchored σ) Shown (guardStepForth n) fun _ => Shown := by
  induction n with
  | zero => exact .answer fun _ hs => hs
  | succ n ih => exact next_triple.bind fun _ => ih

lemma seek_triple (target : Nat) :
    Triple (σ := Anchored σ) Shown (guardSeek target) fun _ => Shown := by
  apply Triple.here
  intro before hbefore
  apply Triple.bind (Q := fun _ => Shown)
  · exact (stepBack_triple _).mono (fun _ hs => hs ▸ hbefore) fun _ _ hs => hs
  · intro _
    apply Triple.here
    intro after hafter
    exact (stepForth_triple _).mono (fun _ hs => hs ▸ hafter) fun _ _ hs => hs

end Seeking

section Grouped

variable [GroupCode ρ α β] [Cursor σ α] [Viewed σ α] {code : ρ} {s : Grouped ρ σ β}

/-- The source shows a tape and is read with this code. -/
def SourceShown (code : ρ) (s : Grouped ρ σ β) : Prop := Shown s.source ∧ s.code = code

omit [GroupCode ρ α β] in
lemma Triple.insideGrouped {act : Guarded (Anchored σ) γ} (h : Triple Shown act fun _ => Shown) :
    Triple (SourceShown code) (guardSource act : Guarded (Grouped ρ σ β) γ)
      fun _ => SourceShown code :=
  h.within (fun _ hs => hs.1) fun _ _ _ hs hinner => ⟨hinner, hs.2⟩

variable [GuardedCode ρ] [FittingCode ρ] [GuardedCursor σ α] [InRange σ]

/-- No more units are read than make a complete group. -/
lemma readUnits_triple (units : List α) {left : Nat}
    (hsize : units.length + left ≤ GroupCode.size code) :
    Triple (SourceShown code) (guardReadUnits units left : Guarded (Grouped ρ σ β) (List α))
      fun group s => SourceShown code s ∧ group.length ≤ GroupCode.size code := by
  induction left generalizing units with
  | zero => exact .answer fun _ hs => ⟨hs, hsize⟩
  | succ left ih =>
    apply Triple.here
    intro s hs
    apply Triple.bind (Q := fun _ => SourceShown code)
    · exact hasNext_triple.insideGrouped.mono (fun _ hs' => hs' ▸ hs) fun _ _ hs' => hs'
    · intro more
      split
      · apply next_triple.insideGrouped.bind
        intro u
        split
        · exact fun s _ => ⟨trivial, fun _ hu => by cases hu⟩
        · apply Triple.bind (Q := fun _ => SourceShown code)
          · intro s' hs'
            have hslots := FittingCode.size_le code
            have hlt : units.length < GuardedCode.slots s'.code := by
              rw [hs'.2]
              omega
            exact ⟨hlt, fun _ _ => hs'⟩
          · intro _
            apply ih
            rw [List.length_append, List.length_singleton]
            omega
      · exact .answer fun _ hs' => ⟨hs', by omega⟩

lemma load_triple (start : Nat) (atEnd : Bool) : Triple (SourceShown code)
    (guardLoad start atEnd : Guarded (Grouped ρ σ β) Bool) fun _ _ => True := by
  apply (seek_triple start).insideGrouped.bind
  intro _
  apply Triple.here
  intro s hs
  apply Triple.bind (Q := fun group s => SourceShown code s ∧ group.length ≤ GroupCode.size code)
  · rw [hs.2]
    exact (readUnits_triple [] (by simp)).mono (fun _ hs' => hs' ▸ hs) fun _ _ hs' => hs'
  · intro units
    split
    · exact .answer fun _ _ => trivial
    · apply Triple.here
      rintro s ⟨⟨-, rfl⟩, hlength⟩
      apply (Triple.of_run_pure (GuardedCode.close_run s.code units)
        fun s' _ => FittingCode.close_safe s.code units s' hlength).bind
      intro closed
      split
      · exact fun _ _ => ⟨trivial, fun _ _ => trivial⟩
      · rename_i out ending
        rintro _ ⟨hclose, rfl⟩
        have hout := FittingCode.close_le _ _ _ _ hlength hclose.symm
        exact ⟨⟨hout, fun _ _ => trivial⟩, fun _ _ => trivial⟩

lemma readyAhead_safe (h : Shown s.source) : guardReadyAhead.safe s := by
  have hsource : SourceShown s.code s := ⟨h, rfl⟩
  apply safe_here
  split
  · trivial
  · split
    · exact (load_triple _ _ s hsource).1
    · trivial
    · have hmore : Triple (SourceShown s.code) (do
          guardSource (guardSeek (s.group.start + s.group.span))
          if ← guardSource GuardedCursor.hasNext then
            let s ← Guarded.free Action.here
            .free (Grouped.reject .trailingSymbols s.source.innerIndex)
          else pure false : Guarded (Grouped ρ σ β) Bool) fun _ _ => True := by
        apply (seek_triple _).insideGrouped.bind
        intro _
        apply hasNext_triple.insideGrouped.bind
        intro more
        split
        · apply Triple.here
          exact fun _ _ _ _ => ⟨trivial, fun _ _ => trivial⟩
        · exact .answer fun _ _ => trivial
      exact (hmore s hsource).1

lemma readyBack_safe (h : Shown s.source)
    (hstart : s.group.start ≠ 0 → GroupCode.size s.code ≤ s.group.start) :
    guardReadyBack.safe s := by
  apply safe_here
  split
  · trivial
  · split
    · trivial
    · rename_i hne
      exact ⟨hstart hne, fun _ _ => (load_triple _ _ s ⟨h, rfl⟩).1⟩

end Grouped

section Groups

variable [GroupCode ρ α β] [LawfulCode ρ] {code : ρ} {units : List α} {stop : Stop}
  {offset start size : Nat} {done : List β}

/-- What a complete group becomes that another one may follow. -/
def MakesFull (code : ρ) (full : Nat) : Prop :=
  ∀ group out, Accepted code group → GroupCode.close code group = .ok (out, .more) →
    out.length = full

/-- The groups in front of the one at hand are complete, and so is what they become. -/
lemma Reaches.exists_groups (h : Reaches code offset units stop start done) :
    ∃ n, start = n * GroupCode.size code ∧
      ∀ full, MakesFull code full → done.length = n * full := by
  induction h with
  | zero => exact ⟨0, by simp⟩
  | @step start span done out h hread ih =>
    obtain ⟨n, hstart, hdone⟩ := ih
    obtain ⟨group, rest, hgroup⟩ := readGroup_reads hread
    have hspan : span = GroupCode.size code := hgroup.span_of_more rfl
    refine ⟨n + 1, by rw [hstart, hspan, Nat.succ_mul], fun full hfull => ?_⟩
    have hout : out.length = full := hfull group out hgroup.accepted hgroup.closed
    rw [List.length_append, hdone full hfull, hout, Nat.succ_mul]

lemma Reaches.size_le (h : Reaches code offset units stop start done) (hstart : start ≠ 0) :
    GroupCode.size code ≤ start := by
  obtain ⟨n, rfl, -⟩ := h.exists_groups
  apply Nat.le_mul_of_pos_left
  exact Nat.pos_of_ne_zero fun hzero => hstart (by rw [hzero, Nat.zero_mul])

lemma Holds.length_le [GuardedCode ρ] [FittingCode ρ] {base : Nat} {source : Tape α} {g : Group β}
    (h : Holds code base source g) : g.units.length ≤ GuardedCode.capacity code := by
  obtain rfl | hread := h
  · exact Nat.zero_le _
  · obtain ⟨group, rest, hgroup⟩ := readGroup_reads hread
    exact FittingCode.close_le code group _ _ hgroup.length_le hgroup.closed

end Groups

section Places

variable [GroupCode ρ α β] [LawfulCode ρ] [GuardedCode ρ] [FittingCode ρ] [Cursor σ α] [Viewed σ α]
  [GuardedCursor σ α] [InRange σ] {code : ρ} {base i : Nat} {source : Tape α} {s : Grouped ρ σ β}

omit [GuardedCode ρ] [FittingCode ρ] [GuardedCursor σ α] [InRange σ] in
lemma GroupsAt.source_shown (h : GroupsAt Shows base code source i s) : Shown s.source := by
  obtain ⟨n, ⟨-, hstands⟩, -⟩ := h.stands
  exact ⟨_, base, hstands⟩

omit [GuardedCode ρ] [FittingCode ρ] [GuardedCursor σ α] [InRange σ] in
/-- A cursor over groups shows a tape only if its source does. -/
lemma Shown.grouped (h : Shown s) : Shown s.source := by
  obtain ⟨t, place, i, hat, -⟩ := h
  exact hat.source_shown

lemma GroupsAt.readyBack_safe (h : GroupsAt Shows base code source i s) :
    guardReadyBack.safe s := by
  obtain ⟨done, hreaches, -⟩ := h.reaches
  rw [← h.code_eq] at hreaches
  exact BaseText.Proofs.readyBack_safe h.source_shown hreaches.size_le

lemma GroupsAt.peekAhead_safe (h : GroupsAt Shows base code source i s) :
    guardPeekAhead.safe s := by
  have hready : Meets guardReadyAhead.run s (groupTape code base source i : Tape β).more
      (groupTape code base source i : Tape β).refusals (HeldAhead Shows base code source i s) :=
    guardReadyAhead_run (σ := σ) (ρ := ρ) ▸ grouped_readyAhead simulation h
  apply safe_bind (readyAhead_safe h.source_shown) hready
  intro more s' hmore hs'
  split
  · rename_i htrue
    have hpassed := hs'.2.2 fun hnil => by
      rw [Tape.more, hnil, htrue] at hmore
      exact more_ne_true _ hmore
    have hlength := hs'.1.holds.length_le
    rw [← hs'.1.code_eq] at hlength
    apply safe_hereWith ⟨hpassed, hlength⟩
    split <;> trivial
  · trivial

lemma GroupsAt.peekBack_safe (h : GroupsAt Shows base code source i s) :
    guardPeekBack.safe s := by
  have hready : Meets guardReadyBack.run s (.ok (decide (i ≠ 0))) []
      (HeldBack Shows base code source i s) :=
    guardReadyBack_run (σ := σ) (ρ := ρ) ▸ grouped_readyBack simulation h
  apply safe_bind h.readyBack_safe hready
  intro any s' hany hs'
  split
  · rename_i htrue
    have hpassed := hs'.2.2 (by simpa [htrue] using hany)
    have hle := hs'.1.passed
    have hlength := hs'.1.holds.length_le
    rw [← hs'.1.code_eq] at hlength
    apply safe_hereWith ⟨hpassed, by omega, hlength⟩
    split <;> trivial
  · trivial

omit [GuardedCode ρ] [FittingCode ρ] [GuardedCursor σ α] [InRange σ] in
/-- Where a unit is found behind, some of the group at hand have been passed. -/
lemma GroupsAt.peekBack_pos (h : GroupsAt Shows base code source i s) (hi : s.index = i) {u : β}
    (hu : (Grouped.peekBack s).result = .ok u) :
    0 < (Grouped.peekBack s).cursor.passed ∧ 0 < (Grouped.peekBack s).cursor.index := by
  have hback := grouped_peekBack simulation h hi
  rw [hback.result] at hu
  have hne : i ≠ 0 := by
    rw [← groupTape_behind h]
    intro hzero
    rw [Tape.last, List.eq_nil_of_length_eq_zero hzero] at hu
    cases hu
  obtain ⟨-, hindex, hpassed⟩ := hback.cursor
  refine ⟨hpassed hne, ?_⟩
  rw [hindex, hi]
  exact Nat.pos_of_ne_zero hne

instance : InRange (Grouped ρ σ β) where
  safe := by
    rintro s ⟨t, place, i, h, hi, -⟩
    constructor
    · exact readyAhead_safe h.source_shown
    · exact h.readyBack_safe
    · exact h.peekAhead_safe
    · exact h.peekBack_safe
    · exact safe_countForth h.peekAhead_safe
    · apply safe_countBack h.peekBack_safe
      intro u hu
      rw [guardPeekBack_run] at hu ⊢
      exact h.peekBack_pos hi hu

end Places

section Stacks

variable {k : Kind}

instance : InRange (Source k) where
  safe := by
    rintro s ⟨t, hs⟩
    cases s with
    | sequence c | buffer c | text c =>
      have hc := InRange.safe c ⟨t, hs⟩
      exact ⟨hc.hasNext, hc.hasPrevious, hc.peekNext, hc.peekPrevious, hc.next, hc.previous⟩

instance {S : Kind → Type} [(k : Kind) → Cursor (S k) k.Carrier]
    [(k : Kind) → Viewed (S k) k.Carrier] [(k : Kind) → GuardedCursor (S k) k.Carrier]
    [(k : Kind) → InRange (S k)] : InRange (Layer S k) where
  safe := by
    rintro s ⟨t, hs⟩
    cases s with
    | plain c | limited c | delimited c | filtered c | chained c | mapped c | encoded c
      | decoded c =>
      have hc := InRange.safe c ⟨t, hs⟩
      exact ⟨hc.hasNext, hc.hasPrevious, hc.peekNext, hc.peekPrevious, hc.next, hc.previous⟩

instance instInRangeStack : (n : Nat) → (k : Kind) → InRange (Stack n k)
  | 0, k => inferInstanceAs (InRange (Source k))
  | n + 1, k =>
    have := instInRangeStack n
    inferInstanceAs (InRange (Layer (Stack n) k))

instance : InRange (AnyStack k) where
  safe := by
    rintro s ⟨t, hs⟩
    have hc := InRange.safe s.stack ⟨t, hs⟩
    exact ⟨hc.hasNext, hc.hasPrevious, hc.peekNext, hc.peekPrevious, hc.next, hc.previous⟩

end Stacks

end BaseText.Proofs
