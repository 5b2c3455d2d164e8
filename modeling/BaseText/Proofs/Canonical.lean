import BaseText.Proofs.RoundTrip

/-!
# The canonical text

A text that is read and written again keeps its length, its padding and the bits that its bytes are
made of. What may change is the case of hexadecimal digits, and the bits of the last symbol that
belong to no whole byte: these become zeros.
-/

namespace BaseText.Proofs

/-- The bits that a symbol carries. -/
def symbolBits (codec : Codec) (c : Char) : List Bool := valueBits codec (valuesOf codec [c])

/-- How many bits of `n` symbols belong to no whole byte. -/
def spareBits (codec : Codec) (n : Nat) : Nat := codec.bits * n % 8

/-- The bits of the last of `n` symbols that belong to whole bytes. -/
def keptPart (codec : Codec) (n : Nat) (c : Char) : List Bool :=
  (symbolBits codec c).take (codec.bits - spareBits codec n)

/-- The bits of the last of `n` symbols that belong to no whole byte. -/
def sparePart (codec : Codec) (n : Nat) (c : Char) : List Bool :=
  (symbolBits codec c).drop (codec.bits - spareBits codec n)

/-- A letter in the case asked for, and every other ASCII character as it is. -/
def inCase (upper : Bool) (c : Char) : Char := if upper then c.toUpper else c.toLower

section Symbol

variable {codec : Codec} {c c' : Char} {v : Nat}

/-- In a table, the symbol of a value is the only one that has it. -/
lemma symbol_value (hcodec : codec ≠ .base16) (upper : Bool) (h : codec.value? c = some v) :
    codec.symbol v upper = c := by
  cases codec with
  | base16 => exact absurd rfl hcodec
  | base32 a => exact alphabet_symbol_value a h
  | base64 a => exact alphabet_symbol_value a h

/-- Writing the value of a hexadecimal digit brings the digit to the case asked for, and keeps it
if it is no letter or has that case. -/
lemma hexDigit_value (upper : Bool) (h : Codec.hexValue? c = some v) :
    Codec.hexDigit v upper = inCase upper c ∧
      (inCase upper c = c ↔ c.isAlpha → c.isUpper = upper) := by
  have hall : ∀ n : Fin 128, ∀ upper, (Codec.hexValue? (Char.ofNat n)).all fun v =>
      decide (Codec.hexDigit v upper = inCase upper (Char.ofNat n) ∧
        (inCase upper (Char.ofNat n) = Char.ofNat n ↔
          (Char.ofNat n).isAlpha → (Char.ofNat n).isUpper = upper)) := by decide +kernel
  have hc : IsSymbol .base16 c := by rw [← hexValue_isSome, h]; rfl
  have hdigit := hall ⟨c.toNat, toNat_lt_of_isSymbol hc⟩ upper
  rw [Char.ofNat_toNat, h, Option.all_some] at hdigit
  exact of_decide_eq_true hdigit

end Symbol

section Sizes

variable {d : Decoding} {e : Encoding} {n pads : Nat}

/-- What a text may end with is what some bytes are written with. -/
lemma MayEnd.symbolCount_byteCount (h : MayEnd d n pads) :
    d.codec.symbolCount (d.codec.byteCount n) = n := by
  obtain ⟨codec, options⟩ := d
  cases codec <;>
    simp only [MayEnd, shortCounts, List.mem_cons, List.not_mem_nil, or_false, false_and,
      Codec.groupSymbols] at h <;>
    simp only [Codec.symbolCount, Codec.byteCount, Codec.bits] <;> omega

/-- If padding is written exactly where some was read, it is as much. -/
lemma MayEnd.padsBehind_eq (h : MayEnd d n pads) (hcodec : e.codec = d.codec)
    (hadd : e.options.addPadding = true ↔ pads ≠ 0) : padsBehind e n = pads := by
  rw [padsBehind, hcodec]
  obtain ⟨-, rfl⟩ | ⟨hmem, rfl | ⟨rfl, -⟩⟩ := h
  · exact if_neg fun hboth => hadd.1 hboth.1 rfl
  · have hlt := lt_groupSymbols_of_mem hmem
    have hpos := Nat.pos_of_ne_zero (ne_zero_of_mem hmem)
    rw [if_pos ⟨hadd.2 (Nat.sub_ne_zero_of_lt hlt), isPadded_of_mem hmem⟩]
    exact Nat.mod_eq_of_lt (Nat.sub_lt (groupSymbols_pos d.codec) hpos)
  · exact if_neg fun hboth => hadd.1 hboth.1 rfl

lemma spareBits_lt (h : MayEnd d n pads) : spareBits d.codec n < d.codec.bits := by
  obtain ⟨codec, options⟩ := d
  cases codec <;>
    simp only [MayEnd, shortCounts, List.mem_cons, List.not_mem_nil, or_false, false_and,
      Codec.groupSymbols] at h <;>
    simp only [spareBits, Codec.bits] <;> omega

lemma spareBits_of_dvd {codec : Codec} (h : codec.groupSymbols ∣ n) : spareBits codec n = 0 := by
  obtain ⟨q, rfl⟩ := h
  rw [spareBits, ← Nat.mul_assoc, ← group_bits, Nat.mul_assoc, Nat.mul_mod_right]

/-- The bits of `n` symbols are those of whole bytes and the spare ones. -/
lemma byteCount_add_spareBits (codec : Codec) (n : Nat) :
    8 * codec.byteCount n + spareBits codec n = codec.bits * n := by
  rw [Codec.byteCount, spareBits, Nat.mul_comm n]
  exact Nat.div_add_mod _ 8

end Sizes

section Symbols

variable {codec : Codec} {e : Encoding} {data data' front front' : List Char} {c c' : Char}
  {bytes : List UInt8}

lemma valuesOf_lt {v : Nat} (h : v ∈ valuesOf codec data) : v < 2 ^ codec.bits := by
  obtain ⟨c, -, hc⟩ := List.mem_filterMap.1 h
  exact value_lt codec hc

lemma valuesOf_eq_of_bits
    (h : valueBits codec (valuesOf codec data) = valueBits codec (valuesOf codec data')) :
    valuesOf codec data = valuesOf codec data' := by
  have hpos : 0 < codec.bits := by cases codec <;> simp [Codec.bits]
  exact bitsOf_injective codec.order hpos (fun _ => valuesOf_lt) (fun _ => valuesOf_lt) h

/-- Symbols are known by their values as far as each of them is. -/
lemma map_valuesOf {f : Nat → Char} {g : Char → Char} (hdata : ∀ c ∈ data, IsSymbol codec c)
    (h : ∀ c ∈ data, ∀ v, codec.value? c = some v → f v = g c) :
    (valuesOf codec data).map f = data.map g := by
  induction data with
  | nil => rfl
  | cons c data ih =>
    obtain ⟨v, hv⟩ := Option.isSome_iff_exists.1 ((value_isSome codec c).2 (hdata c (by simp)))
    have hrest := ih (fun c hc => hdata c (List.mem_cons_of_mem _ hc))
      fun c hc => h c (List.mem_cons_of_mem _ hc)
    rw [valuesOf] at hrest ⊢
    rw [List.filterMap_cons_some hv, List.map_cons, List.map_cons, hrest, h c (by simp) v hv]

lemma eq_of_valuesOf_eq (hcodec : codec ≠ .base16) (hdata : ∀ c ∈ data, IsSymbol codec c)
    (hdata' : ∀ c ∈ data', IsSymbol codec c) (h : valuesOf codec data = valuesOf codec data') :
    data = data' := by
  have hmap : ∀ l : List Char, (∀ c ∈ l, IsSymbol codec c) →
      (valuesOf codec l).map (codec.symbol · true) = l.map id :=
    fun l hl => map_valuesOf hl fun c _ v => symbol_value hcodec true
  rw [← List.map_id data, ← hmap data hdata, h, hmap data' hdata', List.map_id]

lemma symbolBits_length (h : IsSymbol codec c) : (symbolBits codec c).length = codec.bits := by
  have hlength : (valuesOf codec [c]).length = [c].length := length_valuesOf (by simpa using h)
  rw [symbolBits, length_valueBits, hlength, List.length_singleton, Nat.mul_one]

lemma eq_of_symbolBits_eq (hcodec : codec ≠ .base16) (hc : IsSymbol codec c)
    (hc' : IsSymbol codec c') (h : symbolBits codec c = symbolBits codec c') : c = c' := by
  have hsingle : [c] = [c'] := eq_of_valuesOf_eq hcodec (by simpa using hc) (by simpa using hc')
    (valuesOf_eq_of_bits h)
  exact List.singleton_inj.1 hsingle

lemma keptPart_append_sparePart (codec : Codec) (n : Nat) (c : Char) :
    keptPart codec n c ++ sparePart codec n c = symbolBits codec c :=
  List.take_append_drop ..

/-- Of symbols written again, all but the last have their values, and the last has its kept part
and then zeros. -/
lemma Carries.agree {n : Nat} (hcarries : Carries codec bytes (front' ++ [c']))
    (hbits : byteBits codec bytes =
      (valueBits codec (valuesOf codec (front ++ [c]))).take (8 * bytes.length))
    (hdata : ∀ x ∈ front ++ [c], IsSymbol codec x) (hfront : front.length + 1 = n)
    (hfront' : front'.length + 1 = n)
    (hlength : 8 * bytes.length + spareBits codec n = codec.bits * n)
    (hspare : spareBits codec n < codec.bits) :
    valuesOf codec front' = valuesOf codec front ∧
      symbolBits codec c' = keptPart codec n c ++ List.replicate (spareBits codec n) false := by
  have hvalues : (valueBits codec (valuesOf codec front)).length = codec.bits * front.length := by
    rw [length_valueBits, length_valuesOf fun x hx => hdata x (List.mem_append_left _ hx)]
  have hvalues' : (valueBits codec (valuesOf codec front')).length =
      codec.bits * front'.length := by
    rw [length_valueBits,
      length_valuesOf fun x hx => hcarries.data_symbol x (List.mem_append_left _ hx)]
  have hkept : 8 * bytes.length =
      (valueBits codec (valuesOf codec front)).length + (codec.bits - spareBits codec n) := by
    have hn : codec.bits * n = codec.bits * front.length + codec.bits := by
      rw [← hfront, Nat.mul_succ]
    omega
  have hzeros : codec.bits * (front' ++ [c']).length - 8 * bytes.length = spareBits codec n := by
    rw [List.length_append, List.length_singleton, hfront']
    omega
  have hstream := hcarries.bits
  rw [hzeros, hbits, hkept, valuesOf_append, valuesOf_append, valueBits_append, valueBits_append,
    List.take_length_add_append, List.append_assoc] at hstream
  have hsame : front'.length = front.length := by omega
  obtain ⟨hhead, htail⟩ := List.append_inj hstream (by rw [hvalues, hvalues', hsame])
  exact ⟨valuesOf_eq_of_bits hhead, htail⟩

end Symbols

section Written

variable {e : Encoding} {bytes : List UInt8} {out : List Char} {text : String}

lemma mem_dataSymbols {c : Char} (h : c ∈ e.dataSymbols bytes) :
    ∃ v, e.codec.symbol v e.options.toUpperCase = c := by
  obtain ⟨v, -, hv⟩ := List.mem_map.1 h
  exact ⟨v, hv⟩

lemma Complete.mem_out (h : Complete e bytes out) :
    ∀ c ∈ out, ∃ v, e.codec.symbol v e.options.toUpperCase = c := by
  induction h with
  | nil => simp
  | @cons group bytes out more hsize haccepted hclose h ih =>
    change group.length = e.codec.groupBytes at hsize
    rw [encoding_close, if_pos hsize] at hclose
    obtain ⟨rfl, -⟩ := Prod.mk.inj (Except.ok.inj hclose)
    intro c hc
    obtain hc | hc := List.mem_append.1 hc
    · exact mem_dataSymbols hc
    · exact ih c hc

/-- Whatever is written and is no padding is the symbol of some value. -/
lemma Writes.symbols (h : Writes e bytes text) :
    ∀ c ∈ text.toList, c ≠ pad → ∃ v, e.codec.symbol v e.options.toUpperCase = c := by
  obtain ⟨front, rest, out, rfl, hfront, hlast⟩ := exists_complete e bytes
  obtain ⟨hsize, haccepted⟩ := hlast.encoding_short
  have hdrained := h.drained
  rw [collect_eq_drained, hfront.unroll_eq, unroll_of_short_ended hsize haccepted,
    shortTape_encoding hsize] at hdrained
  have hsymbols : out ++ _ = text.toList := Except.ok.inj hdrained
  rw [← hsymbols]
  intro c hc hpad
  obtain hc | hc := List.mem_append.1 hc
  · exact hfront.mem_out c hc
  · obtain hc | hc := List.mem_append.1 hc
    · exact mem_dataSymbols hc
    · exact absurd (List.eq_of_mem_replicate hc) hpad

end Written

/-- The number of symbols that are no padding. -/
def dataLength (text : List Char) : Nat := text.countP (· != pad)

/-- What becomes of a text in the symbols of a table: at most the last symbol of a short group is
another one, and only in the bits that belong to no whole byte. -/
structure TableRewritten (codec : Codec) (text again : List Char) : Prop where
  symbols : ∀ i : Nat, (i + 1 = dataLength text → codec.groupSymbols ∣ dataLength text) →
    again[i]? = text[i]?
  last : ¬ codec.groupSymbols ∣ dataLength text →
    ∃ c c', text[dataLength text - 1]? = some c ∧ again[dataLength text - 1]? = some c' ∧
      keptPart codec (dataLength text) c' = keptPart codec (dataLength text) c ∧
      ∀ bit ∈ sparePart codec (dataLength text) c', bit = false
  same_iff : again = text ↔
    (¬ codec.groupSymbols ∣ dataLength text → ∀ c, text[dataLength text - 1]? = some c →
      ∀ bit ∈ sparePart codec (dataLength text) c, bit = false)

/-- What becomes of hexadecimal digits: they are brought to the case asked for. -/
structure DigitsRewritten (upper : Bool) (text again : List Char) : Prop where
  digits : again = text.map (inCase upper)
  same_iff : again = text ↔ ∀ c ∈ text, c.isAlpha → c.isUpper = upper

/-- What becomes of a text that is read and written again. -/
structure Rewritten (codec : Codec) (upper : Bool) (text again : List Char) : Prop where
  length : again.length = text.length
  pads : ∀ i : Nat, again[i]? = some pad ↔ text[i]? = some pad
  hexadecimal : codec = .base16 → DigitsRewritten upper text again
  table : codec ≠ .base16 → TableRewritten codec text again

section Rewritten

variable {codec : Codec} {data data' front tail : List Char} {c c' : Char} {pads : Nat}

lemma ne_pad_of_isSymbol (h : IsSymbol codec c) : c ≠ pad :=
  fun hpad => not_isSymbol_pad codec (hpad ▸ h)

lemma dataLength_eq (hdata : ∀ c ∈ data, IsSymbol codec c) (pads : Nat) :
    dataLength (data ++ List.replicate pads pad) = data.length := by
  have hfront : data.countP (· != pad) = data.length :=
    List.countP_eq_length.2 fun c hc => by simpa using ne_pad_of_isSymbol (hdata c hc)
  rw [dataLength, List.countP_append, hfront, List.countP_replicate]
  simp

/-- Padding stands in the same places behind equally many symbols. -/
lemma pads_iff (hdata : ∀ c ∈ data, IsSymbol codec c) (hdata' : ∀ c ∈ data', IsSymbol codec c)
    (hlength : data'.length = data.length) (pads i : Nat) :
    (data' ++ List.replicate pads pad)[i]? = some pad ↔
      (data ++ List.replicate pads pad)[i]? = some pad := by
  have hnone : ∀ l : List Char, (∀ c ∈ l, IsSymbol codec c) → l[i]? ≠ some pad :=
    fun l hl hpad => ne_pad_of_isSymbol (hl pad (List.mem_of_getElem? hpad)) rfl
  rcases Nat.lt_or_ge i data.length with hi | hi
  · rw [List.getElem?_append_left hi, List.getElem?_append_left (by omega)]
    exact iff_of_false (hnone _ hdata') (hnone _ hdata)
  · rw [List.getElem?_append_right hi, List.getElem?_append_right (by omega), hlength]

lemma getElem?_of_ne_length {i : Nat} (hi : i ≠ front.length) :
    (front ++ c' :: tail)[i]? = (front ++ c :: tail)[i]? := by
  rcases Nat.lt_or_gt_of_ne hi with hlt | hgt
  · rw [List.getElem?_append_left hlt, List.getElem?_append_left hlt]
  · obtain ⟨j, rfl⟩ : ∃ j, i = front.length + (j + 1) := ⟨i - front.length - 1, by omega⟩
    rw [List.getElem?_append_right (Nat.le_add_right _ _), Nat.add_sub_cancel_left,
      List.getElem?_append_right (Nat.le_add_right _ _), Nat.add_sub_cancel_left]
    rfl

lemma length_sparePart {n : Nat} (hc : IsSymbol codec c) (hspare : spareBits codec n ≤ codec.bits) :
    (sparePart codec n c).length = spareBits codec n := by
  rw [sparePart, List.length_drop, symbolBits_length hc, Nat.sub_sub_self hspare]

lemma sparePart_eq_of_symbolBits {n : Nat} (hc : IsSymbol codec c)
    (hspare : spareBits codec n ≤ codec.bits)
    (h : symbolBits codec c' = keptPart codec n c ++ List.replicate (spareBits codec n) false) :
    keptPart codec n c' = keptPart codec n c ∧
      sparePart codec n c' = List.replicate (spareBits codec n) false := by
  have hlength : (keptPart codec n c).length = codec.bits - spareBits codec n := by
    rw [keptPart, List.length_take, symbolBits_length hc]
    omega
  rw [keptPart, sparePart, h, ← hlength]
  exact ⟨List.take_left, List.drop_left⟩

/-- If all symbols but the last are the same and the last has zeros for its spare bits, the text is
the one in which these are zeros. -/
lemma tableRewritten_of_last (hcodec : codec ≠ .base16)
    (hdata : ∀ x ∈ front ++ [c], IsSymbol codec x) (hc' : IsSymbol codec c')
    (hspare : spareBits codec (front.length + 1) < codec.bits)
    (hbits : symbolBits codec c' = keptPart codec (front.length + 1) c ++
      List.replicate (spareBits codec (front.length + 1)) false) :
    TableRewritten codec (front ++ c :: List.replicate pads pad)
      (front ++ c' :: List.replicate pads pad) := by
  have hc : IsSymbol codec c := hdata c (by simp)
  have hn : dataLength (front ++ c :: List.replicate pads pad) = front.length + 1 := by
    have hlength := dataLength_eq hdata pads
    rwa [List.append_assoc, List.length_append, List.length_singleton] at hlength
  obtain ⟨hkept, hzeros⟩ := sparePart_eq_of_symbolBits hc (Nat.le_of_lt hspare) hbits
  have hsame : codec.groupSymbols ∣ front.length + 1 → c' = c := by
    intro hdvd
    refine eq_of_symbolBits_eq hcodec hc' hc ?_
    have hnone := spareBits_of_dvd hdvd
    rw [hbits, ← keptPart_append_sparePart codec (front.length + 1) c, sparePart, hnone,
      Nat.sub_zero, List.drop_of_length_le (Nat.le_of_eq (symbolBits_length hc))]
    rfl
  refine ⟨fun i hi => ?_, fun hshort => ?_, ?_⟩
  all_goals rw [hn] at *
  · by_cases hlast : i = front.length
    · rw [hsame (hi (by rw [hlast]))]
    · exact getElem?_of_ne_length hlast
  · refine ⟨c, c', by simp, by simp, hkept, ?_⟩
    rw [hzeros]
    exact fun bit hbit => List.eq_of_mem_replicate hbit
  · constructor
    · intro heq hshort x hx
      have hcc : c' = c := by simpa using heq
      obtain rfl : c = x := by simpa using hx
      rw [← hcc, hzeros]
      exact fun bit hbit => List.eq_of_mem_replicate hbit
    · intro hclear
      by_cases hdvd : codec.groupSymbols ∣ front.length + 1
      · rw [hsame hdvd]
      · have hspare' := List.eq_replicate_of_mem (hclear hdvd c (by simp))
        rw [length_sparePart hc (Nat.le_of_lt hspare)] at hspare'
        rw [← hspare', keptPart_append_sparePart] at hbits
        rw [eq_of_symbolBits_eq hcodec hc' hc hbits]

lemma tableRewritten_self {text : List Char} (h : codec.groupSymbols ∣ dataLength text) :
    TableRewritten codec text text :=
  ⟨fun _ _ => rfl, fun hshort => absurd h hshort,
    iff_of_true rfl fun hshort => absurd h hshort⟩

end Rewritten

section Main

variable {d : Decoding} {data data' : List Char} {pads : Nat} {bytes : List UInt8}

lemma Carries.tableRewritten (hcarries : Carries d.codec bytes data') (hcodec : d.codec ≠ .base16)
    (hdata : ∀ c ∈ data, IsSymbol d.codec c) (hend : MayEnd d data.length pads)
    (hlength : bytes.length = d.codec.byteCount data.length)
    (hbits : byteBits d.codec bytes =
      (valueBits d.codec (valuesOf d.codec data)).take (8 * bytes.length)) :
    TableRewritten d.codec (data ++ List.replicate pads pad)
      (data' ++ List.replicate pads pad) := by
  have hdata' := hcarries.data_symbol
  have hsame : data'.length = data.length := by
    rw [hcarries.length, hlength, hend.symbolCount_byteCount]
  rcases List.eq_nil_or_concat data with rfl | ⟨front, c, rfl⟩
  · obtain rfl := List.eq_nil_of_length_eq_zero hsame
    exact tableRewritten_self (by rw [dataLength_eq hdata]; exact Nat.dvd_zero _)
  · rcases List.eq_nil_or_concat data' with rfl | ⟨front', c', rfl⟩
    · simp at hsame
    · simp only [List.concat_eq_append, List.length_append, List.length_singleton,
        Nat.add_right_cancel_iff] at *
      have hspare := spareBits_lt hend
      obtain ⟨hvalues, hlast⟩ := hcarries.agree hbits hdata rfl (by rw [hsame])
        (by rw [hlength, byteCount_add_spareBits]) hspare
      have hfront : front' = front := eq_of_valuesOf_eq hcodec
        (fun x hx => hdata' x (List.mem_append_left _ hx))
        (fun x hx => hdata x (List.mem_append_left _ hx)) hvalues
      rw [hfront, List.append_assoc, List.append_assoc]
      exact tableRewritten_of_last hcodec hdata (hdata' c' (by simp)) hspare hlast

/-- Symbols of complete groups keep their values. -/
lemma Carries.valuesOf_eq {codec : Codec} (hcarries : Carries codec bytes data')
    (hdata : ∀ c ∈ data, IsSymbol codec c) (hsame : data'.length = data.length)
    (hlength : bytes.length = codec.byteCount data.length)
    (hbits : byteBits codec bytes =
      (valueBits codec (valuesOf codec data)).take (8 * bytes.length))
    (hdvd : codec.groupSymbols ∣ data.length) : valuesOf codec data' = valuesOf codec data := by
  have hfull : 8 * bytes.length = codec.bits * data.length := by
    rw [hlength, ← byteCount_add_spareBits, spareBits_of_dvd hdvd, Nat.add_zero]
  have hall : (valueBits codec (valuesOf codec data)).length ≤ codec.bits * data.length := by
    rw [length_valueBits, length_valuesOf hdata]
  have hstream := hcarries.bits
  rw [hsame, hbits, hfull, Nat.sub_self, List.take_of_length_le hall, List.replicate_zero,
    List.append_nil] at hstream
  exact valuesOf_eq_of_bits hstream

lemma digitsRewritten {upper : Bool} (hdata : ∀ c ∈ data, IsSymbol .base16 c)
    (hdata' : ∀ c ∈ data', IsSymbol .base16 c)
    (hwritten : ∀ c ∈ data', ∃ v, Codec.hexDigit v upper = c)
    (hvalues : valuesOf .base16 data' = valuesOf .base16 data) :
    DigitsRewritten upper data data' := by
  have hdigit : ∀ c ∈ data', ∀ v, Codec.hexValue? c = some v → Codec.hexDigit v upper = c := by
    intro c hc v hv
    obtain ⟨w, rfl⟩ := hwritten c hc
    rw [hexValue_hexDigit] at hv
    rw [← Option.some.inj hv, Codec.hexDigit, Codec.hexDigit, Nat.mod_mod]
  have hdigits : data' = data.map (inCase upper) := by
    calc data' = data'.map id := (List.map_id data').symm
      _ = (valuesOf .base16 data').map (Codec.hexDigit · upper) := (map_valuesOf hdata' hdigit).symm
      _ = (valuesOf .base16 data).map (Codec.hexDigit · upper) := by rw [hvalues]
      _ = data.map (inCase upper) := map_valuesOf hdata fun c _ v hv => (hexDigit_value upper hv).1
  refine ⟨hdigits, ?_⟩
  calc data' = data ↔ data.map (inCase upper) = data.map id := by rw [hdigits, List.map_id]
    _ ↔ ∀ c ∈ data, inCase upper c = c := List.map_inj_left
    _ ↔ ∀ c ∈ data, c.isAlpha → c.isUpper = upper := by
      refine forall₂_congr fun c hc => ?_
      obtain ⟨v, hv⟩ := Option.isSome_iff_exists.1 ((value_isSome .base16 c).2 (hdata c hc))
      exact (hexDigit_value upper hv).2

end Main

/-- A text that is read and written again, with padding if it has any, keeps its length and its
padding, so that it is never too long to be encoded. Hexadecimal digits get the case asked for.
Symbols of a table stay the same but for the spare bits of the last one, which become zeros. -/
theorem encode_decode (d : Decoding) (upper : Bool) {text : String} {bytes : List UInt8}
    (h : d.decode text = .ok bytes) :
    ∃ again, Writes ⟨d.codec, ⟨text.toList.contains pad, upper⟩⟩ bytes again ∧
      (text.length < 2 ^ 63 →
        Encoding.encode ⟨d.codec, ⟨text.toList.contains pad, upper⟩⟩ bytes = .ok again) ∧
      Rewritten d.codec upper text.toList again.toList := by
  obtain ⟨data, pads, hread⟩ := exists_written d text h
  obtain ⟨htext, hdata, hend⟩ := hread
  obtain ⟨bytes', hok, hlength, hbits⟩ := Written.decode d text ⟨htext, hdata, hend⟩
  obtain rfl : bytes' = bytes := Except.ok.inj (hok.symm.trans h)
  obtain ⟨data', hcarries, hwrites⟩ :=
    exists_writes ⟨d.codec, ⟨text.toList.contains pad, upper⟩⟩ bytes'
  have hdata' := hcarries.data_symbol
  have hsame : data'.length = data.length := by
    rw [hcarries.length, hlength, hend.symbolCount_byteCount]
  have hadd : text.toList.contains pad = true ↔ pads ≠ 0 := by
    have hnone : pad ∉ data := fun hpad => ne_pad_of_isSymbol (hdata pad hpad) rfl
    simp [htext, hnone]
  rw [hsame, hend.padsBehind_eq rfl hadd] at hwrites
  have hwritten := hwrites.symbols
  have hagain : (data' ++ List.replicate pads pad).length = text.length := by
    rw [← String.length_toList, htext]
    simp [hsame]
  refine ⟨_, hwrites, fun hshort => hwrites.encode_ok ?_, ?_⟩
  · rwa [String.length_ofList, hagain]
  rw [String.toList_ofList] at hwritten ⊢
  rw [htext]
  refine ⟨by simp [hsame], pads_iff hdata hdata' hsame pads, fun hcodec => ?_, fun hcodec => ?_⟩
  · obtain ⟨hdvd, rfl⟩ : d.codec.groupSymbols ∣ data.length ∧ pads = 0 := by
      obtain ⟨hmod, hpads⟩ | ⟨hmem, -⟩ := hend
      · exact ⟨Nat.dvd_of_mod_eq_zero hmod, hpads⟩
      · exact absurd hcodec (ne_base16_of_mem hmem)
    have hvalues := hcarries.valuesOf_eq hdata hsame hlength hbits hdvd
    simp only [hcodec, List.replicate_zero, List.append_nil] at *
    exact digitsRewritten hdata hdata'
      (fun c hc => hwritten c hc (ne_pad_of_isSymbol (hdata' c hc))) hvalues
  · exact hcarries.tableRewritten hcodec hdata hend hlength hbits

/-- The last symbol of a short group, in which both spare bits are set. -/
theorem encode_decode_spareBits :
    Decoding.decode { codec := .base64 .base64 } "Zm/=" = .ok [0x66, 0x6f] ∧
      Encoding.encode { codec := .base64 .base64 } [0x66, 0x6f] = .ok "Zm8=" ∧
      Rewritten (.base64 .base64) true "Zm/=".toList "Zm8=".toList := by
  have hdecode : Decoding.decode { codec := .base64 .base64 } "Zm/=" = .ok [0x66, 0x6f] := by
    decide +kernel
  have hencode : Encoding.encode { codec := .base64 .base64 } [0x66, 0x6f] = .ok "Zm8=" := by
    decide +kernel
  obtain ⟨again, -, hagain, hrewritten⟩ := encode_decode { codec := .base64 .base64 } true hdecode
  rw [show "Zm/=".toList.contains pad = true by decide] at hagain
  obtain rfl : "Zm8=" = again := Except.ok.inj (hencode.symm.trans (hagain (by decide)))
  exact ⟨hdecode, hencode, hrewritten⟩

end BaseText.Proofs
