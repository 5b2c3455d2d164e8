import BaseText.Decoding
import BaseText.Encoding
import BaseText.Proofs.Bits
import BaseText.Proofs.Symbols
import BaseText.Proofs.Unrolling
import Mathlib.Data.List.Induction

/-!
# The groups of a codec

A group of bytes and a group of symbols hold equally many bits, and a group of symbols that no
symbol is refused of is some data followed by padding. With this, encodings and decodings are
lawful group codes.
-/

namespace BaseText.Proofs

section Sizes

variable (codec : Codec)

lemma groupBytes_pos : 0 < codec.groupBytes := by
  cases codec <;> simp [Codec.groupBytes]

lemma groupSymbols_pos : 0 < codec.groupSymbols := by
  cases codec <;> simp [Codec.groupSymbols]

lemma group_bits : 8 * codec.groupBytes = codec.bits * codec.groupSymbols := by cases codec <;> rfl

lemma byteCount_group : codec.byteCount codec.groupSymbols = codec.groupBytes := by
  cases codec <;> simp [Codec.byteCount, Codec.groupSymbols, Codec.groupBytes, Codec.bits]

lemma byteCount_le (n : Nat) : codec.byteCount n ≤ n := by
  cases codec <;> simp only [Codec.byteCount, Codec.bits] <;> omega

lemma byteCount_pos_of_aligned {n : Nat} (h : codec.isByteAligned n) : 0 < codec.byteCount n := by
  simp only [Codec.isByteAligned, Bool.and_eq_true, decide_eq_true_eq] at h
  exact h.1

lemma symbolCount_bounds {n : Nat} (h : 0 < n) :
    0 < codec.symbolCount n ∧ codec.symbolCount n ≤ codec.groupSymbols * n := by
  cases codec <;> simp only [Codec.symbolCount, Codec.bits, Codec.groupSymbols] <;> omega

lemma length_bytesOfValues (values : List Nat) :
    (codec.bytesOfValues values).length = codec.byteCount values.length := by
  simp [Codec.bytesOfValues, Digits.ofNat]

lemma length_valuesOfBytes (bytes : List UInt8) :
    (codec.valuesOfBytes bytes).length = codec.symbolCount bytes.length := by
  simp [Codec.valuesOfBytes, Digits.ofNat]

end Sizes

/-- The bits of some bytes, in the direction in which a codec reads them. -/
def byteBits (codec : Codec) (bytes : List UInt8) : List Bool :=
  bitsOf codec.order 8 (bytes.map UInt8.toNat)

/-- The bits of some symbol values, in the same direction. -/
def valueBits (codec : Codec) (values : List Nat) : List Bool :=
  bitsOf codec.order codec.bits values

section Bits

variable (codec : Codec)

@[simp] lemma length_byteBits (bytes : List UInt8) :
    (byteBits codec bytes).length = 8 * bytes.length := by
  simp [byteBits]

@[simp] lemma length_valueBits (values : List Nat) :
    (valueBits codec values).length = codec.bits * values.length :=
  length_bitsOf ..

lemma byteBits_append (bytes more : List UInt8) :
    byteBits codec (bytes ++ more) = byteBits codec bytes ++ byteBits codec more := by
  simp [byteBits]

lemma valueBits_append (values more : List Nat) :
    valueBits codec (values ++ more) = valueBits codec values ++ valueBits codec more :=
  bitsOf_append ..

lemma byteBits_injective {bytes bytes' : List UInt8}
    (h : byteBits codec bytes = byteBits codec bytes') : bytes = bytes' := by
  have hlt : ∀ bytes : List UInt8, ∀ d ∈ bytes.map UInt8.toNat, d < 2 ^ 8 := by
    intro bytes d hd
    obtain ⟨b, -, rfl⟩ := List.mem_map.1 hd
    exact b.toNat_lt
  have hdigits := bitsOf_injective codec.order (by decide) (hlt bytes) (hlt bytes') h
  exact (List.map_inj_right fun _ _ => UInt8.toNat_inj.1).1 hdigits

lemma byteCount_bits (n : Nat) : 8 * codec.byteCount n ≤ codec.bits * n := by
  rw [Codec.byteCount, Nat.mul_comm codec.bits]
  exact Nat.mul_div_le _ _

lemma byteCount_le_groupBytes {n : Nat} (h : n ≤ codec.groupSymbols) :
    codec.byteCount n ≤ codec.groupBytes := by
  rw [← byteCount_group, Codec.byteCount, Codec.byteCount]
  exact Nat.div_le_div_right (Nat.mul_le_mul_right _ h)

lemma symbolCount_le_groupSymbols {n : Nat} (h : n ≤ codec.groupBytes) :
    codec.symbolCount n ≤ codec.groupSymbols := by
  cases codec <;>
    simp only [Codec.symbolCount, Codec.bits, Codec.groupBytes, Codec.groupSymbols] at h ⊢ <;> omega

lemma symbolCount_bits (n : Nat) : 8 * n ≤ codec.bits * codec.symbolCount n := by
  cases codec <;> simp only [Codec.symbolCount, Codec.bits] <;> omega

lemma toNat_ofNat_digits (order : BitOrder) (count wanted n : Nat) :
    ((Digits.ofNat order 8 count wanted n).map UInt8.ofNat).map UInt8.toNat =
      Digits.ofNat order 8 count wanted n := by
  simp [Digits.ofNat]

/-- The whole bytes that symbols carry are made of their leading bits. -/
theorem byteBits_bytesOfValues {values : List Nat} (hvalues : ∀ v ∈ values, v < 2 ^ codec.bits)
    (hlength : values.length ≤ codec.groupSymbols) :
    byteBits codec (codec.bytesOfValues values) =
      (valueBits codec values).take (8 * codec.byteCount values.length) := by
  have hcount := byteCount_bits codec values.length
  rw [byteBits, Codec.bytesOfValues, toNat_ofNat_digits,
    bitsOf_ofNat (byteCount_le_groupBytes codec hlength), group_bits,
    digitBits_toNat hvalues hlength]
  exact List.take_append_of_le_length (by simpa using hcount)

/-- The symbols that bytes are written with carry the bits of the bytes, and then zeros. -/
theorem valueBits_valuesOfBytes {bytes : List UInt8} (hlength : bytes.length ≤ codec.groupBytes) :
    valueBits codec (codec.valuesOfBytes bytes) =
      byteBits codec bytes ++
        List.replicate (codec.bits * codec.symbolCount bytes.length - 8 * bytes.length) false := by
  have hsymbols := symbolCount_le_groupSymbols codec hlength
  have hroom : codec.bits * codec.symbolCount bytes.length ≤ codec.bits * codec.groupSymbols :=
    Nat.mul_le_mul_left _ hsymbols
  have hgroup := group_bits codec
  have hbytes := symbolCount_bits codec bytes.length
  have hdigits : ∀ d ∈ bytes.map UInt8.toNat, d < 2 ^ 8 := by
    intro d hd
    obtain ⟨b, -, rfl⟩ := List.mem_map.1 hd
    exact b.toNat_lt
  rw [valueBits, Codec.valuesOfBytes, bitsOf_ofNat hsymbols, ← group_bits,
    digitBits_toNat hdigits (by simpa using hlength), ← byteBits, List.take_append,
    List.take_of_length_le (by simpa using hbytes), List.take_replicate, length_byteBits,
    List.length_map]
  congr 2
  rw [Nat.mul_sub]
  omega

end Bits

/-- The values of those characters that carry data. -/
def valuesOf (codec : Codec) (symbols : List Char) : List Nat :=
  symbols.filterMap codec.value?

lemma valuesOf_append (codec : Codec) (symbols more : List Char) :
    valuesOf codec (symbols ++ more) = valuesOf codec symbols ++ valuesOf codec more :=
  List.filterMap_append

lemma length_valuesOf {codec : Codec} {symbols : List Char} (h : ∀ c ∈ symbols, IsSymbol codec c) :
    (valuesOf codec symbols).length = symbols.length := by
  induction symbols with
  | nil => rfl
  | cons c rest ih =>
    obtain ⟨v, hv⟩ := Option.isSome_iff_exists.1 ((value_isSome codec c).2 (h c (by simp)))
    have hrest := ih fun c hc => h c (List.mem_cons_of_mem _ hc)
    simp only [valuesOf] at hrest
    simp [valuesOf, hv, hrest]

/-- Some data and `pads` padding symbols. -/
structure Padded (d : Decoding) (data : List Char) (pads : Nat) (symbols : List Char) : Prop where
  eq : symbols = data ++ List.replicate pads pad
  data : ∀ c ∈ data, IsSymbol d.codec c
  codec : pads ≠ 0 → d.codec.isPadded = true

section Padded

variable {d : Decoding} {data symbols : List Char} {pads : Nat} {c : Char}

lemma isPad_iff : d.isPad c ↔ d.codec.isPadded ∧ c = pad := by
  simp [Decoding.isPad]

lemma isPad_of_isSymbol (h : IsSymbol d.codec c) : d.isPad c = false := by
  rw [← value_isSome] at h
  rw [Bool.eq_false_iff]
  intro hpad
  rw [(isPad_iff.1 hpad).2, value_pad] at h
  cases h

namespace Padded

lemma padCount (h : Padded d data pads symbols) : d.padCount symbols = pads := by
  have hdata : data.countP d.isPad = 0 := by
    rw [List.countP_eq_zero]
    intro c hc
    rw [isPad_of_isSymbol (h.data c hc)]
    exact Bool.false_ne_true
  have hpads : (List.replicate pads pad).countP d.isPad = pads := by
    by_cases hzero : pads = 0
    · rw [hzero]
      rfl
    · rw [List.countP_replicate, if_pos (isPad_iff.2 ⟨h.codec hzero, rfl⟩)]
  rw [Decoding.padCount, h.eq, List.countP_append, hdata, hpads, Nat.zero_add]

lemma length (h : Padded d data pads symbols) : symbols.length = data.length + pads := by
  rw [h.eq, List.length_append, List.length_replicate]

lemma dataCount (h : Padded d data pads symbols) : d.dataCount symbols = data.length := by
  rw [Decoding.dataCount, h.padCount, h.length, Nat.add_sub_cancel]

lemma values (h : Padded d data pads symbols) :
    symbols.filterMap d.codec.value? = valuesOf d.codec data := by
  rw [h.eq, List.filterMap_append, valuesOf, List.filterMap_replicate_of_none (value_pad _),
    List.append_nil]

lemma refuse_eq (h : Padded d data pads symbols) (c : Char) :
    d.refuse? symbols c =
      if d.isPad c then
        if pads = 0 ∧ ¬ d.codec.isByteAligned data.length then some .unexpectedPadding else none
      else if pads ≠ 0 then some .expectedPadding
      else if IsSymbol d.codec c then none else some .invalidCharacter := by
  rw [Decoding.refuse?, h.padCount, h.dataCount]
  by_cases hpad : d.isPad c
  · by_cases haligned : d.codec.isByteAligned data.length <;> by_cases hpads : pads = 0 <;>
      simp [hpad, haligned, hpads]
  · have hvalue : (d.codec.value? c).isNone = !decide (IsSymbol d.codec c) := by
      have hsome := (value_isSome d.codec c).trans decide_eq_true_iff.symm
      rw [← Option.not_isSome, Bool.eq_iff_iff.2 hsome]
    by_cases hsymbol : IsSymbol d.codec c <;> by_cases hpads : pads = 0 <;>
      simp [hpad, hpads, hsymbol, hvalue, Nat.pos_iff_ne_zero]

lemma fault_eq (h : Padded d data pads symbols) :
    d.fault? symbols =
      if pads ≠ 0 then some .expectedPadding
      else if d.codec = .base16 then some .oddLength
      else if ¬ d.codec.isByteAligned data.length then some .incompleteGroup
      else if d.options.requirePadding then some .expectedPadding
      else none := by
  rw [Decoding.fault?, h.padCount, h.dataCount]
  simp only [Nat.pos_iff_ne_zero, Bool.not_eq_true, Bool.not_eq_true']

lemma ending_eq (h : Padded d data pads symbols) :
    d.ending symbols =
      if pads ≠ 0 then .sealed
      else if data.length = d.codec.groupSymbols then .more
      else .last := by
  by_cases hpads : pads = 0
  · simp [Decoding.ending, h.padCount, h.length, hpads]
  · simp [Decoding.ending, h.padCount, hpads, Nat.pos_iff_ne_zero]

lemma groupBytes_eq (h : Padded d data pads symbols) :
    d.groupBytes symbols = d.codec.bytesOfValues (valuesOf d.codec data) := by
  rw [Decoding.groupBytes, h.values]

lemma snoc (h : Padded d data pads symbols) (hc : d.refuse? symbols c = none)
    (halign : pads ≠ 0 → d.codec.isByteAligned data.length = true) :
    ∃ data' pads', Padded d data' pads' (symbols ++ [c]) ∧
      (pads' ≠ 0 → d.codec.isByteAligned data'.length = true) := by
  rw [h.refuse_eq] at hc
  by_cases hpad : d.isPad c
  · obtain ⟨hcodec, rfl⟩ := isPad_iff.1 hpad
    refine ⟨data, pads + 1, ⟨?_, h.data, fun _ => hcodec⟩, fun _ => ?_⟩
    · rw [h.eq, List.append_assoc, List.replicate_succ']
    · by_cases hpads : pads = 0
      · simpa [hpad, hpads] using hc
      · exact halign hpads
  · by_cases hpads : pads = 0
    · have hsymbol : IsSymbol d.codec c := by
        by_contra hno
        simp [hpad, hpads, hno] at hc
      refine ⟨data ++ [c], 0, ⟨?_, ?_, fun hne => absurd rfl hne⟩, fun hne => absurd rfl hne⟩
      · rw [h.eq, hpads]
        simp
      · intro c' hc'
        obtain hc' | hc' := List.mem_append.1 hc'
        · exact h.data c' hc'
        · rwa [List.mem_singleton.1 hc']
    · simp [hpad, hpads] at hc

end Padded

/-- Symbols of which none is refused are data and padding, and padding only where bytes end. -/
lemma padded_of_accepted (h : Accepted d symbols) :
    ∃ data pads, Padded d data pads symbols ∧
      (pads ≠ 0 → d.codec.isByteAligned data.length = true) := by
  induction symbols using List.reverseRecOn with
  | nil =>
    exact ⟨[], 0, ⟨rfl, fun c hc => absurd hc List.not_mem_nil, fun hne => absurd rfl hne⟩,
      fun hne => absurd rfl hne⟩
  | append_singleton symbols c ih =>
    obtain ⟨data, pads, hpadded, halign⟩ := ih fun seen u rest hseen =>
      h seen u (rest ++ [c]) (by rw [hseen]; simp)
    exact hpadded.snoc (h symbols c [] rfl) halign

end Padded

lemma decoding_close_of_none {d : Decoding} {symbols : List Char}
    (h : symbols.length < d.codec.groupSymbols → d.fault? symbols = none) :
    GroupCode.close d symbols = .ok (d.groupBytes symbols, d.ending symbols) := by
  have hnone :
      (if symbols.length < d.codec.groupSymbols then d.fault? symbols else none) = none := by
    rw [ite_eq_right_iff]
    exact h
  dsimp only [GroupCode.close]
  rw [hnone]

lemma decoding_close_of_some {d : Decoding} {symbols : List Char} {cause : Cause}
    (hshort : symbols.length < d.codec.groupSymbols) (h : d.fault? symbols = some cause) :
    GroupCode.close d symbols = .error cause := by
  dsimp only [GroupCode.close]
  rw [if_pos hshort, h]

lemma decoding_close_ok {d : Decoding} {symbols : List Char} {out : List UInt8} {ending : Ending}
    (h : GroupCode.close d symbols = .ok (out, ending)) :
    (symbols.length < d.codec.groupSymbols → d.fault? symbols = none) ∧
      out = d.groupBytes symbols ∧ ending = d.ending symbols := by
  have hfault : symbols.length < d.codec.groupSymbols → d.fault? symbols = none := by
    intro hshort
    by_contra hsome
    obtain ⟨cause, hcause⟩ := Option.ne_none_iff_exists'.1 hsome
    rw [decoding_close_of_some hshort hcause] at h
    cases h
  rw [decoding_close_of_none hfault] at h
  obtain ⟨rfl, rfl⟩ := Prod.mk.inj (Except.ok.inj h)
  exact ⟨hfault, rfl, rfl⟩

lemma Padded.byteCount_pos {d : Decoding} {data symbols : List Char} {pads : Nat}
    (h : Padded d data pads symbols)
    (halign : pads ≠ 0 → d.codec.isByteAligned data.length = true)
    (hfault : symbols.length < d.codec.groupSymbols → d.fault? symbols = none)
    (hle : symbols.length ≤ d.codec.groupSymbols) : 0 < d.codec.byteCount data.length := by
  by_cases hpads : pads = 0
  · by_cases hshort : symbols.length < d.codec.groupSymbols
    · have hnone := hfault hshort
      rw [h.fault_eq] at hnone
      apply byteCount_pos_of_aligned d.codec
      by_contra hno
      by_cases hcodec : d.codec = .base16 <;> simp [hpads, hcodec, hno] at hnone
    · have hlength := h.length
      have hfull : data.length = d.codec.groupSymbols := by omega
      rw [hfull, byteCount_group]
      exact groupBytes_pos d.codec
  · exact byteCount_pos_of_aligned d.codec (halign hpads)

instance : LawfulCode Decoding where
  codec := Decoding.codec
  size_pos d := groupSymbols_pos d.codec
  rejected_eq _ _ := rfl
  reread_quiet _ _ := rfl
  close_units d symbols out ending hne hle haccepted hclose := by
    obtain ⟨data, pads, hpadded, halign⟩ := padded_of_accepted haccepted
    obtain ⟨hfault, rfl, -⟩ := decoding_close_ok hclose
    have hlength : (d.groupBytes symbols).length = d.codec.byteCount data.length := by
      rw [hpadded.groupBytes_eq, length_bytesOfValues, length_valuesOf hpadded.data]
    have hpos := hpadded.byteCount_pos halign hfault hle
    refine ⟨List.length_pos_iff.1 (hlength ▸ hpos), ?_⟩
    change _ ≤ 1 * symbols.length
    have hcount := byteCount_le d.codec data.length
    rw [hlength, hpadded.length]
    omega
  close_more d symbols out hclose := by
    obtain ⟨-, -, hending⟩ := decoding_close_ok hclose
    by_cases hpads : 0 < d.padCount symbols
    · simp [Decoding.ending, hpads] at hending
    · by_cases hsize : symbols.length = d.codec.groupSymbols
      · exact hsize
      · simp [Decoding.ending, hpads, hsize] at hending
  close_last d symbols out hclose hsize := by
    obtain ⟨-, -, hending⟩ := decoding_close_ok hclose
    have hfull : symbols.length = d.codec.groupSymbols := hsize
    by_cases hpads : 0 < d.padCount symbols <;> simp [Decoding.ending, hpads, hfull] at hending

lemma encoding_close (e : Encoding) (bytes : List UInt8) :
    (GroupCode.close e bytes : Except Cause (List Char × Ending)) =
      if bytes.length = e.codec.groupBytes then .ok (e.dataSymbols bytes, .more)
      else .ok (e.groupSymbols bytes, .last) := rfl

lemma length_dataSymbols (e : Encoding) (bytes : List UInt8) :
    (e.dataSymbols bytes).length = e.codec.symbolCount bytes.length := by
  rw [Encoding.dataSymbols, List.length_map, length_valuesOfBytes]

lemma length_groupSymbols (e : Encoding) (bytes : List UInt8) :
    e.codec.symbolCount bytes.length ≤ (e.groupSymbols bytes).length ∧
      (e.groupSymbols bytes).length ≤
        max e.codec.groupSymbols (e.codec.symbolCount bytes.length) := by
  rw [← length_dataSymbols, Encoding.groupSymbols]
  split
  · rw [List.rightpad]
    simp only [List.length_append, List.length_replicate]
    omega
  · omega

instance : LawfulCode Encoding where
  codec := Encoding.codec
  size_pos e := groupBytes_pos e.codec
  rejected_eq _ _ := rfl
  reread_quiet _ _ := rfl
  close_units e bytes out ending hne hle haccepted hclose := by
    have hcount := symbolCount_bounds e.codec (List.length_pos_iff.2 hne)
    have hsize : e.codec.groupSymbols ≤ e.codec.groupSymbols * bytes.length :=
      Nat.le_mul_of_pos_right _ (List.length_pos_iff.2 hne)
    have hout : 0 < out.length ∧ out.length ≤ e.codec.groupSymbols * bytes.length := by
      rw [encoding_close] at hclose
      split at hclose
      · have hlength := length_dataSymbols e bytes
        rw [← (Prod.mk.inj (Except.ok.inj hclose)).1]
        omega
      · have hlength := length_groupSymbols e bytes
        rw [← (Prod.mk.inj (Except.ok.inj hclose)).1]
        omega
    exact ⟨List.length_pos_iff.1 hout.1, hout.2⟩
  close_more e bytes out hclose := by
    rw [encoding_close] at hclose
    split at hclose
    · assumption
    · cases hclose
  close_last e bytes out hclose := by
    rw [encoding_close] at hclose
    split at hclose
    · cases hclose
    · assumption

end BaseText.Proofs
