import BaseText.Proofs.Canonical

/-!
# The two bit orders

Little-endian coding is big-endian coding read from the other end: a digit has its bits the other
way round, so all bits of some digits are those of the reversed digits the other way round. What is
refused, and how much is read, does not depend on the order at all.
-/

namespace BaseText.Proofs

section Bits

variable (width : Nat)

lemma digitBits_reverse (digit : Nat) :
    (digitBits .bigEndian width digit).reverse = digitBits .littleEndian width digit := by
  apply List.ext_getElem
  · simp
  · intro p hp hp'
    have hlt : p < width := by simpa using hp'
    have hplace : width - 1 - (width - 1 - p) = p := by omega
    simp [digitBits, digitBit, hplace]

lemma bitsOf_reverse (digits : List Nat) :
    (bitsOf .bigEndian width digits).reverse = bitsOf .littleEndian width digits.reverse := by
  induction digits with
  | nil => rfl
  | cons d digits ih =>
    rw [bitsOf_cons, List.reverse_append, ih, digitBits_reverse, List.reverse_cons, bitsOf_append,
      bitsOf_cons, bitsOf_nil, List.append_nil]

end Bits

section WithOrder

variable (codec : Codec) (order : BitOrder)

@[simp] lemma bits_withOrder : (codec.withOrder order).bits = codec.bits := by
  cases codec <;> rfl

@[simp] lemma groupBytes_withOrder : (codec.withOrder order).groupBytes = codec.groupBytes := by
  cases codec <;> rfl

@[simp] lemma groupSymbols_withOrder :
    (codec.withOrder order).groupSymbols = codec.groupSymbols := by
  cases codec <;> rfl

@[simp] lemma isPadded_withOrder : (codec.withOrder order).isPadded = codec.isPadded := by
  cases codec <;> rfl

@[simp] lemma value_withOrder : (codec.withOrder order).value? = codec.value? := by
  cases codec <;> rfl

@[simp] lemma isSymbol_withOrder : IsSymbol (codec.withOrder order) = IsSymbol codec := by
  cases codec <;> rfl

@[simp] lemma withOrder_eq_base16 : codec.withOrder order = .base16 ↔ codec = .base16 := by
  cases codec <;> simp [Codec.withOrder]

@[simp] lemma byteCount_withOrder (n : Nat) :
    (codec.withOrder order).byteCount n = codec.byteCount n := by
  rw [Codec.byteCount, Codec.byteCount, bits_withOrder]

@[simp] lemma symbolCount_withOrder (n : Nat) :
    (codec.withOrder order).symbolCount n = codec.symbolCount n := by
  rw [Codec.symbolCount, Codec.symbolCount, bits_withOrder]

@[simp] lemma isByteAligned_withOrder (n : Nat) :
    (codec.withOrder order).isByteAligned n = codec.isByteAligned n := by
  rw [Codec.isByteAligned, Codec.isByteAligned, byteCount_withOrder, symbolCount_withOrder]

@[simp] lemma valuesOf_withOrder (symbols : List Char) :
    valuesOf (codec.withOrder order) symbols = valuesOf codec symbols := by
  rw [valuesOf, valuesOf, value_withOrder]

variable {codec} in
lemma order_withOrder (h : codec ≠ .base16) : (codec.withOrder order).order = order := by
  cases codec with
  | base16 => exact absurd rfl h
  | base32 a => rfl
  | base64 a => rfl

/-- The order has no say in what is wrong with a text. -/
lemma faultBehind_withOrder (read : DecodeOptions) (n : Nat) (rest : List Char) :
    faultBehind ⟨codec.withOrder order, read⟩ n rest = faultBehind ⟨codec, read⟩ n rest := by
  have hpad : Decoding.isPad ⟨codec.withOrder order, read⟩ = Decoding.isPad ⟨codec, read⟩ := by
    funext c
    simp only [Decoding.isPad, isPadded_withOrder]
  cases rest with
  | nil =>
    simp only [faultBehind, endFault?, groupSymbols_withOrder, isByteAligned_withOrder,
      withOrder_eq_base16]
  | cons c rest =>
    have hroom : padRoom ⟨codec.withOrder order, read⟩ n = padRoom ⟨codec, read⟩ n := by
      simp only [padRoom, groupSymbols_withOrder]
    rw [faultBehind, faultBehind, hpad, hroom, isByteAligned_withOrder, groupSymbols_withOrder]

/-- A text is rejected for the same fault in every order, or read as equally many bytes. -/
lemma decode_length_withOrder (read : DecodeOptions) (text : String) :
    (Decoding.decode ⟨codec.withOrder order, read⟩ text).map List.length =
      (Decoding.decode ⟨codec, read⟩ text).map List.length := by
  obtain ⟨data, rest, htext, hdata, hrest⟩ := exists_data codec text.toList
  have hdata' : ∀ c ∈ data, IsSymbol (codec.withOrder order) c := by simpa using hdata
  have hrest' : ∀ c ∈ rest.head?, ¬ IsSymbol (codec.withOrder order) c := by simpa using hrest
  have hsame := faultBehind_withOrder codec order read data.length rest
  cases hfault : faultBehind ⟨codec, read⟩ data.length rest with
  | some e =>
    rw [hfault] at hsame
    rw [decode_of_fault htext hdata hrest hfault, decode_of_fault htext hdata' hrest' hsame]
  | none =>
    rw [hfault] at hsame
    obtain ⟨bytes, hok, hlength, -⟩ := decode_of_none htext hdata hrest hfault
    obtain ⟨bytes', hok', hlength', -⟩ := decode_of_none htext hdata' hrest' hsame
    rw [hok, hok']
    simp only [Except.map, hlength, hlength', byteCount_withOrder]

end WithOrder

section Whole

variable {codec : Codec} {bytes : List UInt8} {data data' : List Char}

lemma byteBits_reverse (hcodec : codec ≠ .base16) (bytes : List UInt8) :
    (byteBits (codec.withOrder .bigEndian) bytes).reverse =
      byteBits (codec.withOrder .littleEndian) bytes.reverse := by
  rw [byteBits, byteBits, order_withOrder _ hcodec, order_withOrder _ hcodec, bitsOf_reverse,
    List.map_reverse]

lemma valueBits_reverse (hcodec : codec ≠ .base16) (symbols : List Char) :
    (valueBits (codec.withOrder .bigEndian)
        (valuesOf (codec.withOrder .bigEndian) symbols)).reverse =
      valueBits (codec.withOrder .littleEndian)
        (valuesOf (codec.withOrder .littleEndian) symbols.reverse) := by
  rw [valueBits, valueBits, order_withOrder _ hcodec, order_withOrder _ hcodec, bits_withOrder,
    bits_withOrder, bitsOf_reverse, valuesOf_withOrder, valuesOf_withOrder, valuesOf, valuesOf,
    List.filterMap_reverse]

/-- The symbols of whole groups of bytes have the bits of the bytes and no others. -/
lemma Carries.bits_of_dvd (h : Carries codec bytes data) (hdvd : codec.groupBytes ∣ bytes.length) :
    valueBits codec (valuesOf codec data) = byteBits codec bytes := by
  rw [h.bits, h.bits_full hdvd, Nat.sub_self, List.replicate_zero, List.append_nil]

/-- In a table, there is one way only to carry some bytes. -/
lemma Carries.unique (hcodec : codec ≠ .base16) (h : Carries codec bytes data)
    (h' : Carries codec bytes data') : data = data' := by
  have hbits : valueBits codec (valuesOf codec data) = valueBits codec (valuesOf codec data') := by
    rw [h.bits, h'.bits, h.length, h'.length]
  exact eq_of_valuesOf_eq hcodec h.data_symbol h'.data_symbol (valuesOf_eq_of_bits hbits)

lemma Carries.reverse (hcodec : codec ≠ .base16) (hdvd : codec.groupBytes ∣ bytes.length)
    (h : Carries (codec.withOrder .bigEndian) bytes data) :
    Carries (codec.withOrder .littleEndian) bytes.reverse data.reverse := by
  have hdvd' : (codec.withOrder .bigEndian).groupBytes ∣ bytes.length := by simpa using hdvd
  have hbits := h.bits_of_dvd hdvd'
  have hfull := h.bits_full hdvd'
  rw [bits_withOrder] at hfull
  refine ⟨?_, ?_, ?_⟩
  · simpa using h.data_symbol
  · simpa using h.length
  · rw [← valueBits_reverse hcodec, hbits, byteBits_reverse hcodec, bits_withOrder,
      List.length_reverse, List.length_reverse, hfull, Nat.sub_self, List.replicate_zero,
      List.append_nil]

/-- Whole groups of bytes are written without padding. -/
lemma exists_writes_groups (e : Encoding) (bytes : List UInt8)
    (hdvd : e.codec.groupBytes ∣ bytes.length) :
    ∃ data, Carries e.codec bytes data ∧ Writes e bytes (String.ofList data) := by
  obtain ⟨data, hcarries, hwrites⟩ := exists_writes e bytes
  have hmod := hcarries.mod_of_dvd hdvd
  have hpads : padsBehind e data.length = 0 := by
    rw [padsBehind, hmod, Nat.sub_zero, Nat.mod_self, ite_self]
  rw [hpads, List.replicate_zero, List.append_nil] at hwrites
  exact ⟨data, hcarries, hwrites⟩

end Whole

/-- Little-endian coding is big-endian coding from the other end, where both have whole groups: of
bytes to write, or of data to read. Every other text is told of alike in both orders. -/
theorem coding_reversed (codec : Codec) (hcodec : codec ≠ .base16) (write : EncodeOptions)
    (read : DecodeOptions) :
    (∀ bytes : List UInt8, codec.groupBytes ∣ bytes.length →
      ∃ text, Writes ⟨codec.withOrder .bigEndian, write⟩ bytes.reverse text ∧
        Writes ⟨codec.withOrder .littleEndian, write⟩ bytes
          (String.ofList text.toList.reverse)) ∧
    (∀ text : String, codec.groupSymbols ∣ text.length →
      (∀ c ∈ text.toList, IsSymbol codec c) →
      ∃ bytes, Decoding.decode ⟨codec.withOrder .bigEndian, read⟩
          (String.ofList text.toList.reverse) = .ok bytes ∧
        Decoding.decode ⟨codec.withOrder .littleEndian, read⟩ text = .ok bytes.reverse) ∧
    ∀ text : String,
      (Decoding.decode ⟨codec.withOrder .littleEndian, read⟩ text).map List.length =
        (Decoding.decode ⟨codec.withOrder .bigEndian, read⟩ text).map List.length := by
  refine ⟨?_, ?_, ?_⟩
  · intro bytes hdvd
    have hdvd' : codec.groupBytes ∣ bytes.reverse.length := by simpa using hdvd
    obtain ⟨data, hcarries, hwrites⟩ :=
      exists_writes_groups ⟨codec.withOrder .bigEndian, write⟩ bytes.reverse (by simpa using hdvd)
    obtain ⟨data', hcarries', hwrites'⟩ :=
      exists_writes_groups ⟨codec.withOrder .littleEndian, write⟩ bytes (by simpa using hdvd)
    have hreverse := hcarries.reverse hcodec hdvd'
    rw [List.reverse_reverse] at hreverse
    have hsame : data' = data.reverse := hcarries'.unique (by simpa using hcodec) hreverse
    refine ⟨_, hwrites, ?_⟩
    rwa [hsame, ← @String.toList_ofList data] at hwrites'
  · intro text hdvd hdata
    rw [← String.length_toList] at hdvd
    have hdata' : ∀ c ∈ text.toList.reverse, IsSymbol (codec.withOrder .bigEndian) c := by
      simpa using hdata
    have hdata'' : ∀ c ∈ text.toList, IsSymbol (codec.withOrder .littleEndian) c := by
      simpa using hdata
    obtain ⟨bytes, hok, -, hbits⟩ := decode_groups (d := ⟨codec.withOrder .bigEndian, read⟩)
      hdata' (by simpa using hdvd)
    obtain ⟨bytes', hok', -, hbits'⟩ := decode_groups (d := ⟨codec.withOrder .littleEndian, read⟩)
      hdata'' (by simpa using hdvd)
    have hreverse := valueBits_reverse hcodec text.toList.reverse
    rw [List.reverse_reverse, ← hbits', ← hbits, byteBits_reverse hcodec] at hreverse
    have hsame : bytes.reverse = bytes' := byteBits_injective _ hreverse
    rw [String.ofList_toList] at hok'
    exact ⟨bytes, hok, hsame ▸ hok'⟩
  · intro text
    rw [decode_length_withOrder, decode_length_withOrder]

/-- Three bytes are written as the four symbols of their reverse from behind, and read from these.
A lone symbol is too few in both orders. -/
theorem coding_reversed_base64 :
    Encoding.encode { codec := Codec.withOrder .littleEndian (.base64 .base64) }
        [0x6f, 0x6f, 0x66] = .ok "v9mZ" ∧
      Decoding.decode { codec := Codec.withOrder .littleEndian (.base64 .base64) } "v9mZ" =
        .ok [0x6f, 0x6f, 0x66] ∧
      Decoding.decode { codec := Codec.withOrder .littleEndian (.base64 .base64) } "Y" =
        .error ⟨.incompleteGroup, 1⟩ := by
  obtain ⟨hwrite, hread, hsame⟩ := coding_reversed (.base64 .base64) (by decide) {} {}
  refine ⟨?_, ?_, ?_⟩
  · obtain ⟨text, htext, hreverse⟩ := hwrite [0x6f, 0x6f, 0x66] (by decide)
    obtain rfl : "Zm9v" = text := htext.eq_of_ok (by decide +kernel)
    exact hreverse.encode_ok (by decide)
  · have hsymbols : ∀ c ∈ ['v', '9', 'm', 'Z'], IsSymbol (.base64 .base64) c := by
      simp only [List.mem_cons, List.not_mem_nil, or_false]
      rintro c (rfl | rfl | rfl | rfl) <;> decide
    obtain ⟨bytes, hbytes, hreverse⟩ := hread "v9mZ" (by decide) hsymbols
    obtain rfl : [0x66, 0x6f, 0x6f] = bytes :=
      Except.ok.inj ((by decide +kernel : _ = _).symm.trans hbytes)
    exact hreverse
  · have hbig : Decoding.decode { codec := Codec.withOrder .bigEndian (.base64 .base64) } "Y" =
        .error ⟨.incompleteGroup, 1⟩ := by decide +kernel
    have hlength := hsame "Y"
    rw [hbig] at hlength
    cases hlittle : Decoding.decode
        { codec := Codec.withOrder .littleEndian (.base64 .base64) } "Y" with
    | ok bytes =>
      rw [hlittle] at hlength
      cases hlength
    | error e =>
      rw [hlittle] at hlength
      exact congrArg Except.error (Except.error.inj hlength)

end BaseText.Proofs
