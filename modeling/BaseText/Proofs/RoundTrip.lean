import BaseText.Proofs.Format
import BaseText.Proofs.Writing

/-!
# Reading what was written

Decoding undoes encoding, unless padding was left out and is asked for.
-/

namespace BaseText.Proofs

section Sizes

variable {codec : Codec} {n : Nat}

lemma byteCount_symbolCount (codec : Codec) (n : Nat) :
    codec.byteCount (codec.symbolCount n) = n := by
  cases codec <;> simp only [Codec.byteCount, Codec.symbolCount, Codec.bits] <;> omega

/-- The last group of symbols is that of the last group of bytes. -/
lemma symbolCount_mod (codec : Codec) (n : Nat) :
    codec.symbolCount n % codec.groupSymbols = codec.symbolCount (n % codec.groupBytes) := by
  have hmod := Nat.mod_lt n (groupBytes_pos codec)
  have hcount := symbolCount_add_groups codec (n / codec.groupBytes) (n % codec.groupBytes)
  rw [Nat.div_add_mod] at hcount
  rw [hcount, Nat.mul_add_mod, Nat.mod_eq_of_lt (symbolCount_lt hmod)]

lemma symbolCount_mem (hpos : n ≠ 0) (hlt : n < codec.groupBytes) :
    codec.symbolCount n ∈ shortCounts codec := by
  cases codec <;>
    simp only [Codec.symbolCount, Codec.groupBytes, Codec.bits, shortCounts, List.mem_cons,
      List.not_mem_nil, or_false] at hlt ⊢ <;> omega

lemma Carries.mod_of_dvd {bytes : List UInt8} {data : List Char} (hdata : Carries codec bytes data)
    (h : codec.groupBytes ∣ bytes.length) : data.length % codec.groupSymbols = 0 := by
  rw [hdata.length, symbolCount_mod, Nat.mod_eq_zero_of_dvd h]
  exact (carries_nil codec).length.symm

lemma Carries.mod_mem {bytes : List UInt8} {data : List Char} (hdata : Carries codec bytes data)
    (h : ¬ codec.groupBytes ∣ bytes.length) :
    data.length % codec.groupSymbols ∈ shortCounts codec := by
  rw [hdata.length, symbolCount_mod]
  exact symbolCount_mem (fun hzero => h (Nat.dvd_of_mod_eq_zero hzero))
    (Nat.mod_lt _ (groupBytes_pos codec))

end Sizes

variable {codec : Codec} {written : EncodeOptions} {read : DecodeOptions} {bytes : List UInt8}
  {data : List Char}

/-- The padding that is written is padding that may be read, unless it is missing. -/
lemma mayEnd_padsBehind (hdata : Carries codec bytes data)
    (h : read.requirePadding = false ∨ written.addPadding = true ∨ codec = .base16 ∨
      codec.groupBytes ∣ bytes.length) :
    MayEnd ⟨codec, read⟩ data.length (padsBehind ⟨codec, written⟩ data.length) := by
  by_cases hdvd : codec.groupBytes ∣ bytes.length
  · have hmod := hdata.mod_of_dvd hdvd
    refine .inl ⟨hmod, ?_⟩
    rw [padsBehind]
    change (if _ then (codec.groupSymbols - data.length % codec.groupSymbols) % _ else 0) = 0
    rw [hmod, Nat.sub_zero, Nat.mod_self, ite_self]
  · have hmem := hdata.mod_mem hdvd
    have hpos := ne_zero_of_mem hmem
    have hpadded := isPadded_of_mem hmem
    refine .inr ⟨hmem, ?_⟩
    by_cases hadd : written.addPadding = true
    · refine .inl ?_
      rw [padsBehind, if_pos ⟨hadd, hpadded⟩]
      exact Nat.mod_eq_of_lt (Nat.sub_lt (groupSymbols_pos codec) (Nat.pos_of_ne_zero hpos))
    · refine .inr ⟨?_, ?_⟩
      · rw [padsBehind, if_neg fun hboth => hadd hboth.1]
      · obtain hread | hwritten | hcodec | hdvd' := h
        · exact hread
        · exact absurd hwritten hadd
        · exact absurd hcodec (ne_base16_of_mem hmem)
        · exact absurd hdvd' hdvd

lemma eq_of_carries (hdata : Carries codec bytes data) {bytes' : List UInt8}
    (hlength : bytes'.length = codec.byteCount data.length)
    (hbits : byteBits codec bytes' =
      (valueBits codec (valuesOf codec data)).take (8 * bytes'.length)) :
    bytes' = bytes := by
  rw [hdata.length, byteCount_symbolCount] at hlength
  rw [hdata.bits, hlength, ← length_byteBits codec bytes, List.take_left] at hbits
  exact byteBits_injective codec hbits

variable (codec written read bytes)

/-- Bytes are always written, as long as there can be a text of the length that is told beforehand.
Reading what was written gives the bytes again, unless padding was left out and is asked for: then
it is missed at the end of the text. -/
theorem decode_encode :
    ∃ text, Writes ⟨codec, written⟩ bytes text ∧
      (writtenLength codec bytes.length written.addPadding < 2 ^ 63 →
        Encoding.encode ⟨codec, written⟩ bytes = .ok text) ∧
      Decoding.decode ⟨codec, read⟩ text =
        if read.requirePadding = false ∨ written.addPadding = true ∨ codec = .base16 ∨
            codec.groupBytes ∣ bytes.length then .ok bytes
        else .error ⟨.expectedPadding, text.length⟩ := by
  obtain ⟨data, hdata, hwrites⟩ := exists_writes ⟨codec, written⟩ bytes
  refine ⟨_, hwrites, fun hlength => hwrites.encode_ok (hwrites.length_eq ▸ hlength), ?_⟩
  split_ifs with h
  · have hwritten : Written ⟨codec, read⟩ data (padsBehind ⟨codec, written⟩ data.length)
        (String.ofList (data ++ List.replicate (padsBehind ⟨codec, written⟩ data.length) pad)) :=
      ⟨String.toList_ofList, hdata.data_symbol, mayEnd_padsBehind hdata h⟩
    obtain ⟨bytes', hok, hlength, hbits⟩ := hwritten.decode
    rw [hok, eq_of_carries hdata hlength hbits]
  · obtain ⟨hread, hwritten⟩ := not_or.1 h
    obtain ⟨hadd, hcodec⟩ := not_or.1 hwritten
    have hmem := hdata.mod_mem (not_or.1 hcodec).2
    have hpads : padsBehind ⟨codec, written⟩ data.length = 0 := by
      rw [padsBehind, if_neg fun hboth => hadd hboth.1]
    rw [hpads, List.replicate_zero, String.length_ofList, List.append_nil]
    have hfault : faultBehind ⟨codec, read⟩ data.length [] =
        some ⟨.expectedPadding, data.length⟩ := by
      rw [faultBehind, endFault_of_mem hmem (by simpa using hread)]
      rfl
    exact decode_of_fault (by simp) hdata.data_symbol (by simp) hfault

/-- One byte that is written without the padding that its reader asks for. -/
theorem decode_encode_unpadded :
    ∃ text, Encoding.encode ⟨.base64 .base64, { addPadding := false }⟩ [0x66] = .ok text ∧
      text.length = 2 ∧
      Decoding.decode ⟨.base64 .base64, { requirePadding := true }⟩ text =
        .error ⟨.expectedPadding, 2⟩ := by
  obtain ⟨text, hwrites, hencode, hdecode⟩ :=
    decode_encode (.base64 .base64) { addPadding := false } { requirePadding := true } [0x66]
  have hlength : text.length = 2 := hwrites.length_eq
  refine ⟨text, hencode (by decide), hlength, ?_⟩
  rw [hdecode, if_neg (by decide), hlength]

end BaseText.Proofs
