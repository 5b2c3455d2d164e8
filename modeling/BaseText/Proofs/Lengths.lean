import BaseText.Proofs.Safety
import BaseText.Proofs.Writing
import Mathlib.Algebra.Order.Floor.Div

/-!
# Lengths known beforehand

How long the text is that bytes are written as is known from their number, as long as it fits a
64-bit word. How many bytes a text is read as is bounded by what all groups come to that the text
has room for, and of what was written this bound is the number of bytes, rounded up to groups.
-/

namespace BaseText.Proofs

section Groups

variable {ρ α β : Type} [GroupCode ρ α β] {code : ρ} {full offset : Nat} {units : List α}
  {stop : Stop}

/-- No group becomes more than `full` units. -/
def MakesAtMost (code : ρ) (full : Nat) : Prop :=
  ∀ group out ending, group.length ≤ GroupCode.size code →
    GroupCode.close code group = .ok (out, ending) → out.length ≤ full

lemma encoding_makesAtMost (e : Encoding) : MakesAtMost e e.codec.groupSymbols := by
  intro bytes out ending hlength hclose
  have hcount := symbolCount_le_groupSymbols e.codec hlength
  have hdata := length_dataSymbols e bytes
  have hgroup := (length_groupSymbols e bytes).2
  rw [max_eq_left hcount] at hgroup
  rw [encoding_close] at hclose
  split at hclose
  · rw [← (Prod.mk.inj (Except.ok.inj hclose)).1]
    omega
  · rw [← (Prod.mk.inj (Except.ok.inj hclose)).1]
    omega

lemma decoding_makesAtMost (d : Decoding) : MakesAtMost d d.codec.groupBytes := by
  intro symbols out ending hlength hclose
  obtain ⟨-, rfl, -⟩ := decoding_close_ok hclose
  rw [Decoding.groupBytes, length_bytesOfValues]
  exact byteCount_le_groupBytes d.codec (length_values_le hlength)

lemma ceilDiv_add_self {n size : Nat} (hsize : 0 < size) :
    (n + size) ⌈/⌉ size = n ⌈/⌉ size + 1 := by
  have hmove : n + size + size - 1 = n + size - 1 + size := by omega
  rw [Nat.ceilDiv_eq_add_pred_div, Nat.ceilDiv_eq_add_pred_div, hmove, Nat.add_div_right _ hsize]

lemma one_le_ceilDiv {n size : Nat} (hsize : 0 < size) (hn : 0 < n) : 1 ≤ n ⌈/⌉ size := by
  rw [Nat.ceilDiv_eq_add_pred_div, Nat.le_div_iff_mul_le hsize]
  omega

variable [LawfulCode ρ]

/-- The units have room for so many groups, and these become no more than full groups do. -/
lemma unroll_length_groups (hfull : MakesAtMost code full) :
    (unroll code offset units stop : Tape β).ahead.length ≤
      units.length ⌈/⌉ GroupCode.size code * full := by
  have hsize := LawfulCode.size_pos code
  have hout {units : List α} {piece : Piece β} {group rest : List α}
      (h : ReadsGroup code units stop piece group rest) : piece.units.length ≤ full :=
    hfull group piece.units piece.ending h.length_le h.closed
  have hlast {units : List α} {piece : Piece β} {group rest : List α}
      (h : ReadsGroup code units stop piece group rest) :
      piece.units.length ≤ units.length ⌈/⌉ GroupCode.size code * full := by
    have hpos : 0 < units.length := Nat.lt_of_lt_of_le h.span_pos h.span_le
    exact Nat.le_trans (hout h) (Nat.le_mul_of_pos_left _ (one_le_ceilDiv hsize hpos))
  fun_induction unroll with
  | case1 => exact Nat.zero_le _
  | case2 => exact Nat.zero_le _
  | case3 offset units span out hread next ih =>
    obtain ⟨group, rest, hgroup⟩ := readGroup_reads hread
    have hspan : span = GroupCode.size code := hgroup.span_of_more rfl
    have hle : span ≤ units.length := hgroup.span_le
    have hrest : units.length = (units.drop span).length + GroupCode.size code := by
      rw [List.length_drop]
      omega
    rw [List.length_append, hrest, ceilDiv_add_self hsize, Nat.succ_mul, Nat.add_comm]
    exact Nat.add_le_add ih (hout hgroup)
  | case4 offset units span out hread =>
    obtain ⟨group, rest, hgroup⟩ := readGroup_reads hread
    exact hlast hgroup
  | case5 offset units span out hread =>
    obtain ⟨group, rest, hgroup⟩ := readGroup_reads hread
    exact hlast hgroup

end Groups

section Written

variable (codec : Codec)

lemma encodedLength_eq_some {n m : Nat} {padding : Bool}
    (h : codec.encodedLength? n padding = some m) :
    m = writtenLength codec n padding ∧ m < 2 ^ 64 := by
  rw [encodedLength_eq, Codec.checked] at h
  split at h
  · rename_i hlt
    obtain rfl := Option.some.inj h
    exact ⟨rfl, hlt⟩
  · cases h

/-- Half of the lengths that a word holds are not too long to be written. -/
lemma writtenLength_lt {n : Nat} (h : n < 2 ^ 63) (padding : Bool) :
    writtenLength codec n padding < 2 ^ 64 := by
  rw [writtenLength, ← symbolCount_eq_ceilDiv, Nat.ceilDiv_eq_add_pred_div]
  split_ifs with hpad
  · cases codec <;> simp [Codec.isPadded] at hpad <;>
      simp only [Codec.groupBytes, Codec.groupSymbols] <;> omega
  · cases codec <;> simp only [Codec.symbolCount, Codec.bits] <;> omega

/-- The groups of symbols are as many as the groups of bytes. -/
lemma writtenLength_groups (n : Nat) (padding : Bool) :
    writtenLength codec n padding ⌈/⌉ codec.groupSymbols = n ⌈/⌉ codec.groupBytes := by
  rw [writtenLength, ← symbolCount_eq_ceilDiv]
  simp only [Nat.ceilDiv_eq_add_pred_div]
  split_ifs
  · cases codec <;> simp only [Codec.groupBytes, Codec.groupSymbols] <;> omega
  · cases codec <;>
      simp only [Codec.groupBytes, Codec.groupSymbols, Codec.symbolCount, Codec.bits] <;> omega

end Written

section Read

variable (codec : Codec)

/-- No text is so long that the bound does not fit a word. -/
lemma decodedLengthBound_eq {n : Nat} (h : n < 2 ^ 64) :
    codec.decodedLengthBound n = n ⌈/⌉ codec.groupSymbols * codec.groupBytes := by
  rw [Nat.ceilDiv_eq_add_pred_div, Codec.decodedLengthBound]
  apply Nat.min_eq_left
  change _ ≤ 2 ^ 64 - 1
  cases codec <;> simp only [Codec.groupBytes, Codec.groupSymbols] <;> omega

/-- There can be room for whatever a text can be read as, so that reading refuses no length. -/
lemma decodedLengthBound_lt {n : Nat} (h : n < 2 ^ 63) : codec.decodedLengthBound n < 2 ^ 63 := by
  rw [decodedLengthBound_eq codec (Nat.lt_trans h (by decide)), Nat.ceilDiv_eq_add_pred_div]
  cases codec <;> simp only [Codec.groupBytes, Codec.groupSymbols] <;> omega

lemma decodedLengthBound_monotone : Monotone codec.decodedLengthBound := by
  intro n m h
  have hdiv : (n + codec.groupSymbols - 1) / codec.groupSymbols ≤
      (m + codec.groupSymbols - 1) / codec.groupSymbols := Nat.div_le_div_right (by omega)
  exact min_le_min_right _ (Nat.mul_le_mul_right _ hdiv)

variable {codec}

/-- What symbols are read as is within the bound, wherever they stand and however they end. -/
lemma unroll_length_bound (d : Decoding) {symbols : List Char} (h : symbols.length < 2 ^ 64)
    (offset : Nat) (stop : Stop) :
    (unroll d offset symbols stop).ahead.length ≤ d.codec.decodedLengthBound symbols.length := by
  rw [decodedLengthBound_eq d.codec h]
  exact unroll_length_groups (decoding_makesAtMost d)

/-- A decoding cursor gives no more bytes than the bound allows for. -/
lemma decode_length_bound (d : Decoding) {s : AnyStack .char} {t : Tape Char} (ht : Shows s t)
    (h : t.ahead.length < 2 ^ 64) :
    (∀ calls, Cursor.index (after calls (s.decode d)) ≤
        d.codec.decodedLengthBound t.ahead.length) ∧
      ∀ bytes stop, Gives (s.decode d) bytes stop →
        bytes.length ≤ d.codec.decodedLengthBound t.ahead.length := by
  have hshows := shows_decode ht d
  have hbound := unroll_length_bound d h t.behind.length t.stop
  have hbehind : (unroll d t.behind.length t.ahead t.stop : Tape UInt8).behind = [] := unroll_behind
  generalize unroll d t.behind.length t.ahead t.stop = view at hshows hbound hbehind
  refine ⟨fun calls => ?_, fun bytes stop hgives => ?_⟩
  · have hafter := after_shows simulation hshows calls
    have hunits : (after calls view.counted).units = view.counted.units :=
      congrArg Tape.ahead (Tape.toStart_after view.counted calls)
    have hall : (after calls view.counted).units.length = view.ahead.length := by
      rw [hunits]
      simp [Tape.units, Tape.counted, hbehind]
    rw [Tape.units, List.length_append, List.length_reverse] at hall
    rw [simulation.index hafter]
    omega
  · obtain ⟨rfl, -⟩ := hgives.tape_eq hshows
    exact hbound

end Read

/-- Lengths are computed as they are, up to the limit of a 64-bit word. -/
theorem lengths_exact (codec : Codec) :
    (∀ n padding, codec.encodedLength? n padding =
        if writtenLength codec n padding < 2 ^ 64 then some (writtenLength codec n padding)
        else none) ∧
      (∀ n < 2 ^ 64,
        codec.decodedLengthBound n = n ⌈/⌉ codec.groupSymbols * codec.groupBytes) ∧
      Monotone codec.decodedLengthBound ∧
      (∀ {s : AnyStack .char} {symbols : List Char} {stop : Stop}, Reachable s →
        Gives s symbols stop → symbols.length < 2 ^ 64 → ∀ options,
          (∀ calls, Cursor.index (after calls (s.decode ⟨codec, options⟩)) ≤
              codec.decodedLengthBound symbols.length) ∧
            ∀ bytes stop, Gives (s.decode ⟨codec, options⟩) bytes stop →
              bytes.length ≤ codec.decodedLengthBound symbols.length) ∧
      ∀ n padding m, codec.encodedLength? n padding = some m →
        codec.decodedLengthBound m = n ⌈/⌉ codec.groupBytes * codec.groupBytes := by
  refine ⟨encodedLength_eq codec, fun n h => decodedLengthBound_eq codec h,
    decodedLengthBound_monotone codec, ?_, ?_⟩
  · intro s symbols stop hreach hgives hlength options
    obtain ⟨t, ht⟩ := reachable_shows hreach
    obtain ⟨rfl, -⟩ := hgives.tape_eq ht
    exact decode_length_bound ⟨codec, options⟩ ht hlength
  · intro n padding m h
    obtain ⟨rfl, hlt⟩ := encodedLength_eq_some codec h
    rw [decodedLengthBound_eq codec hlt, writtenLength_groups]

/-- Four symbols in Base64 that become two bytes. -/
def paddedSymbols : AnyStack .char :=
  .ofSource (.sequence (.ofList ['Z', 'm', '8', '=']))

/-- The longest bytes in padded Base64, which one more would make too long. -/
theorem lengths_exact_base64 :
    (Codec.base64 .base64).encodedLength? 13835058055282163709 true = some (2 ^ 64 - 4) ∧
      (Codec.base64 .base64).encodedLength? 13835058055282163710 true = none ∧
      (Codec.base64 .base64).decodedLengthBound (2 ^ 64 - 1) = 2 ^ 62 * 3 ∧
      (Codec.base64 .base64).decodedLengthBound (2 ^ 64 - 4) = 13835058055282163709 ∧
      Gives (paddedSymbols.decode { codec := .base64 .base64 }) [0x66, 0x6f] (.ended 4) ∧
      (∀ calls, Cursor.index (after calls (paddedSymbols.decode { codec := .base64 .base64 })) ≤
        (Codec.base64 .base64).decodedLengthBound 4) ∧
      [0x66, 0x6f].length ≤ (Codec.base64 .base64).decodedLengthBound 4 := by
  obtain ⟨hlength, hbound, -, hdecode, hround⟩ := lengths_exact (.base64 .base64)
  have hmost : (Codec.base64 .base64).encodedLength? 13835058055282163709 true =
      some (2 ^ 64 - 4) := by
    rw [hlength]
    decide
  have hover : (Codec.base64 .base64).encodedLength? 13835058055282163710 true = none := by
    rw [hlength]
    decide
  have hsymbols : Gives paddedSymbols ['Z', 'm', '8', '='] (.ended 4) := rfl
  have hgives : Gives (paddedSymbols.decode { codec := .base64 .base64 }) [0x66, 0x6f]
      (.ended 4) := rfl
  obtain ⟨hindex, hbytes⟩ := hdecode (.slice (k := .char) _) hsymbols (by decide) {}
  exact ⟨hmost, hover, hbound _ (by decide), hround _ _ _ hmost, hgives, hindex, hbytes _ _ hgives⟩

end BaseText.Proofs
