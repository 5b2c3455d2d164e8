import BaseText.WholeInput
import BaseText.Proofs.CompleteGroups
import BaseText.Proofs.Runs
import Mathlib.Algebra.Order.Floor.Div

/-!
# What writing bytes comes to

Bytes are written as the fewest symbols that have room for their bits. The symbols carry these bits,
and then zeros; padding may fill up the last group.
-/

namespace BaseText.Proofs

/-- The symbols carry the bytes, and are as few as can be. -/
structure Carries (codec : Codec) (bytes : List UInt8) (data : List Char) : Prop where
  data_symbol : ∀ c ∈ data, IsSymbol codec c
  length : data.length = codec.symbolCount bytes.length
  bits : valueBits codec (valuesOf codec data) =
    byteBits codec bytes ++ List.replicate (codec.bits * data.length - 8 * bytes.length) false

/-- The padding symbols that are written behind `n` symbols of data. -/
def padsBehind (e : Encoding) (n : Nat) : Nat :=
  if e.options.addPadding ∧ e.codec.isPadded then
    (e.codec.groupSymbols - n % e.codec.groupSymbols) % e.codec.groupSymbols
  else 0

variable {e : Encoding} {front rest bytes : List UInt8} {out data more : List Char}

lemma isSymbol_symbol (codec : Codec) (v : Nat) (upper : Bool) :
    IsSymbol codec (codec.symbol v upper) := by
  rw [← value_isSome, value_symbol]
  rfl

lemma valuesOf_map_symbol (codec : Codec) (upper : Bool) {values : List Nat}
    (h : ∀ v ∈ values, v < 2 ^ codec.bits) :
    valuesOf codec (values.map fun v => codec.symbol v upper) = values := by
  induction values with
  | nil => rfl
  | cons v values ih =>
    have hv := value_symbol codec v upper
    rw [Nat.mod_eq_of_lt (h v (by simp))] at hv
    have hrest := ih fun v hv => h v (List.mem_cons_of_mem _ hv)
    rw [valuesOf] at hrest ⊢
    rw [List.map_cons, List.filterMap_cons_some hv, hrest]

lemma valuesOf_dataSymbols (e : Encoding) (bytes : List UInt8) :
    valuesOf e.codec (e.dataSymbols bytes) = e.codec.valuesOfBytes bytes := by
  apply valuesOf_map_symbol e.codec _
  intro v hv
  obtain ⟨i, -, rfl⟩ := List.mem_map.1 hv
  exact Nat.mod_lt _ (Nat.two_pow_pos _)

lemma carries_dataSymbols (e : Encoding) (hlength : bytes.length ≤ e.codec.groupBytes) :
    Carries e.codec bytes (e.dataSymbols bytes) := by
  refine ⟨?_, length_dataSymbols e bytes, ?_⟩
  · intro c hc
    obtain ⟨v, -, rfl⟩ := List.mem_map.1 hc
    exact isSymbol_symbol e.codec v _
  · rw [valuesOf_dataSymbols, valueBits_valuesOfBytes e.codec hlength, length_dataSymbols]

lemma carries_nil (codec : Codec) : Carries codec [] [] := by
  refine ⟨by simp, ?_, by simp [valueBits, valuesOf, byteBits]⟩
  cases codec <;> simp [Codec.symbolCount, Codec.bits]

lemma symbolCount_lt {codec : Codec} {n : Nat} (h : n < codec.groupBytes) :
    codec.symbolCount n < codec.groupSymbols := by
  cases codec <;>
    simp only [Codec.symbolCount, Codec.groupBytes, Codec.groupSymbols, Codec.bits] at h ⊢ <;> omega

lemma symbolCount_add_groups (codec : Codec) (q n : Nat) :
    codec.symbolCount (codec.groupBytes * q + n) =
      codec.groupSymbols * q + codec.symbolCount n := by
  cases codec <;>
    simp only [Codec.symbolCount, Codec.groupBytes, Codec.groupSymbols, Codec.bits] <;> omega

lemma symbolCount_groups (codec : Codec) (q : Nat) :
    codec.symbolCount (codec.groupBytes * q) = codec.groupSymbols * q := by
  have hnone : codec.symbolCount 0 = 0 := (carries_nil codec).length.symm
  exact (symbolCount_add_groups codec q 0).trans (by rw [hnone, Nat.add_zero])

/-- Complete groups of bytes leave no room in their symbols. -/
lemma Carries.bits_full {codec : Codec} (h : Carries codec bytes data)
    (hdvd : codec.groupBytes ∣ bytes.length) : codec.bits * data.length = 8 * bytes.length := by
  obtain ⟨q, hq⟩ := hdvd
  rw [h.length, hq, symbolCount_groups, ← Nat.mul_assoc, ← Nat.mul_assoc, group_bits]

/-- Complete groups and whatever follows them. -/
lemma Carries.append {codec : Codec} (hfront : Carries codec front out)
    (hdvd : codec.groupBytes ∣ front.length) (hdata : Carries codec bytes data) :
    Carries codec (front ++ bytes) (out ++ data) := by
  have hfull := hfront.bits_full hdvd
  obtain ⟨q, hq⟩ := hdvd
  have hout : out.length = codec.groupSymbols * q := by
    rw [hfront.length, hq, symbolCount_groups]
  refine ⟨?_, ?_, ?_⟩
  · intro c hc
    obtain hc | hc := List.mem_append.1 hc
    · exact hfront.data_symbol c hc
    · exact hdata.data_symbol c hc
  · rw [List.length_append, List.length_append, hout, hdata.length, hq, symbolCount_add_groups]
  · have hnone : codec.bits * out.length - 8 * front.length = 0 := by
      rw [hfull, Nat.sub_self]
    have hrest : codec.bits * (out ++ data).length - 8 * (front ++ bytes).length =
        codec.bits * data.length - 8 * bytes.length := by
      rw [List.length_append, List.length_append, Nat.mul_add, Nat.mul_add, hfull,
        Nat.add_sub_add_left]
    rw [valuesOf_append, valueBits_append, hfront.bits, hdata.bits, hnone, hrest, byteBits_append,
      List.replicate_zero, List.append_nil, List.append_assoc]

lemma LastGroup.encoding_short (h : LastGroup e rest) :
    rest.length < e.codec.groupBytes ∧ Accepted e rest := by
  cases h with
  | refused hsize haccepted hrefuse => cases hrefuse
  | @full group tail hsize haccepted hclose =>
    -- Every complete group of bytes may be followed by another one.
    have hmore := encoding_close e group
    rw [if_pos (show group.length = e.codec.groupBytes from hsize)] at hmore
    exact absurd hmore (hclose _)
  | short hsize haccepted => exact ⟨hsize, haccepted⟩

lemma Complete.carries (h : Complete e front out) : Carries e.codec front out := by
  induction h with
  | nil => exact carries_nil e.codec
  | @cons group bytes out more hsize haccepted hclose h ih =>
    change group.length = e.codec.groupBytes at hsize
    rw [encoding_close, if_pos hsize] at hclose
    obtain ⟨rfl, -⟩ := Prod.mk.inj (Except.ok.inj hclose)
    exact (carries_dataSymbols e (Nat.le_of_eq hsize)).append (dvd_of_eq hsize.symm) ih

lemma groupSymbols_eq (hne : bytes ≠ []) (hshort : bytes.length < e.codec.groupBytes) :
    e.groupSymbols bytes = e.dataSymbols bytes ++
      List.replicate (padsBehind e (e.dataSymbols bytes).length) pad := by
  have hpos := symbolCount_bounds e.codec (List.length_pos_iff.2 hne)
  have hlt := symbolCount_lt hshort
  rw [Encoding.groupSymbols, padsBehind, length_dataSymbols]
  by_cases hpad : e.options.addPadding ∧ e.codec.isPadded
  · rw [if_pos (by simpa using hpad), if_pos hpad, List.rightpad, length_dataSymbols,
      Nat.mod_eq_of_lt hlt, Nat.mod_eq_of_lt (by omega)]
  · rw [if_neg (by simpa using hpad), if_neg hpad, List.replicate_zero, List.append_nil]

lemma padsBehind_zero (e : Encoding) : padsBehind e 0 = 0 := by
  rw [padsBehind, Nat.zero_mod, Nat.sub_zero, Nat.mod_self, ite_self]

lemma padsBehind_add (h : e.codec.groupSymbols ∣ out.length) (n : Nat) :
    padsBehind e (out.length + n) = padsBehind e n := by
  obtain ⟨q, hq⟩ := h
  rw [padsBehind, padsBehind, hq, Nat.mul_add_mod]

lemma shortTape_encoding (hshort : bytes.length < e.codec.groupBytes) (offset o : Nat) :
    shortTape e offset o bytes = ⟨[], e.dataSymbols bytes ++
      List.replicate (padsBehind e (e.dataSymbols bytes).length) pad, .ended o⟩ := by
  cases bytes with
  | nil =>
    have hnil : e.dataSymbols [] = [] := by
      have hlength := length_dataSymbols e []
      exact List.eq_nil_of_length_eq_zero (hlength.trans (carries_nil e.codec).length.symm)
    rw [shortTape, hnil, List.length_nil, padsBehind_zero, List.replicate_zero, List.append_nil]
  | cons b more =>
    have hclose := encoding_close e (b :: more)
    rw [if_neg (Nat.ne_of_lt hshort), groupSymbols_eq (List.cons_ne_nil b more) hshort] at hclose
    exact shortTape_of_ok (List.cons_ne_nil b more) hclose

/-- What any bytes are written as, wherever they start and end. -/
theorem writes_all (e : Encoding) (bytes : List UInt8) :
    ∃ data, Carries e.codec bytes data ∧
      ∀ offset o, unroll e offset bytes (.ended o) =
        ⟨[], data ++ List.replicate (padsBehind e data.length) pad, .ended o⟩ := by
  obtain ⟨front, rest, out, rfl, hfront, hlast⟩ := exists_complete e bytes
  obtain ⟨hsize, haccepted⟩ := hlast.encoding_short
  have hdvd : e.codec.groupBytes ∣ front.length := hfront.dvd_length
  have hgroups : e.codec.groupSymbols ∣ out.length := by
    obtain ⟨q, hq⟩ := hdvd
    exact ⟨q, by rw [hfront.carries.length, hq, symbolCount_groups]⟩
  have hrest := carries_dataSymbols e (Nat.le_of_lt hsize)
  refine ⟨_, hfront.carries.append hdvd hrest, fun offset o => ?_⟩
  rw [hfront.unroll_eq, unroll_of_short_ended hsize haccepted, shortTape_encoding hsize,
    List.length_append, padsBehind_add hgroups, List.append_assoc]

section Length

variable (codec : Codec)

lemma symbolCount_eq_ceilDiv (n : Nat) :
    codec.symbolCount n = (8 * n) ⌈/⌉ codec.bits := by
  rw [Nat.ceilDiv_eq_add_pred_div, Codec.symbolCount, Nat.mul_comm]

/-- The number of symbols that `n` bytes are written with. -/
def writtenLength (n : Nat) (padding : Bool) : Nat :=
  if padding && codec.isPadded then n ⌈/⌉ codec.groupBytes * codec.groupSymbols
  else (8 * n) ⌈/⌉ codec.bits

variable {codec} in
/-- Data and padding together. -/
lemma length_written {e : Encoding} {bytes : List UInt8} {data : List Char}
    (h : Carries e.codec bytes data) :
    (data ++ List.replicate (padsBehind e data.length) pad).length =
      writtenLength e.codec bytes.length e.options.addPadding := by
  obtain ⟨codec, ⟨padding, upper⟩⟩ := e
  rw [List.length_append, List.length_replicate, h.length, padsBehind, writtenLength,
    ← symbolCount_eq_ceilDiv, Nat.ceilDiv_eq_add_pred_div]
  cases padding <;> cases codec <;>
    simp only [Codec.symbolCount, Codec.groupBytes, Codec.groupSymbols, Codec.bits,
      Codec.isPadded, Bool.false_eq_true, and_self, and_false, false_and, if_true, if_false,
      Bool.and_false, Bool.and_true] <;> omega

/-- The complete groups, and what is left of the bytes. -/
lemma writtenLength_eq (n : Nat) (padding : Bool) :
    writtenLength codec n padding = n / codec.groupBytes * codec.groupSymbols +
      if n % codec.groupBytes = 0 then 0
      else if padding && codec.isPadded then codec.groupSymbols
      else codec.symbolCount (n % codec.groupBytes) := by
  rw [writtenLength, ← symbolCount_eq_ceilDiv, Nat.ceilDiv_eq_add_pred_div]
  cases codec <;> cases padding <;>
    simp only [Codec.groupBytes, Codec.groupSymbols, Codec.symbolCount, Codec.bits, Codec.isPadded,
      Bool.and_true, Bool.and_false] <;>
    split_ifs <;> omega

/-- The complete groups alone do not overflow unless the whole length does. -/
lemma encodedLength_eq (n : Nat) (padding : Bool) :
    codec.encodedLength? n padding = Codec.checked (writtenLength codec n padding) := by
  rw [writtenLength_eq, Codec.encodedLength?]
  generalize n / codec.groupBytes * codec.groupSymbols = full
  dsimp only
  generalize (if n % codec.groupBytes = 0 then 0 else _ : Nat) = tail
  by_cases hfull : full < Codec.lengthLimit
  · rw [Codec.checked, if_pos hfull]
    rfl
  · rw [Codec.checked, if_neg hfull, Codec.checked, if_neg (by omega)]
    rfl

end Length

/-- The text that the bytes are written as. They are encoded into it unless no text can be as long
as it is: encoding then fails at once. -/
structure Writes (e : Encoding) (bytes : List UInt8) (text : String) : Prop where
  drained : (Cursor.collect (e.cursor bytes)).result = .ok text.toList
  encode : e.encode bytes =
    if text.length < 2 ^ 63 then .ok text else .error ⟨.lengthOverflow, 0⟩

section Writes

variable {text text' : String}

lemma Writes.unique (h : Writes e bytes text) (h' : Writes e bytes text') : text = text' :=
  String.toList_inj.1 (Except.ok.inj (h.drained.symm.trans h'.drained))

lemma Writes.eq_of_ok (h : Writes e bytes text) (hok : e.encode bytes = .ok text') :
    text' = text := by
  rw [h.encode] at hok
  split_ifs at hok
  exact (Except.ok.inj hok).symm

lemma Writes.encode_ok (h : Writes e bytes text) (hlength : text.length < 2 ^ 63) :
    e.encode bytes = .ok text := by
  rw [h.encode, if_pos hlength]

lemma collect_eq_drained (e : Encoding) (bytes : List UInt8) :
    (Cursor.collect (e.cursor bytes)).result =
      (unroll e 0 bytes (.ended bytes.length) : Tape Char).drained := by
  have hcollect := (collect_shows simulation (group_shows (sequence_shows bytes) e)).result
  rwa [Tape.drained_counted] at hcollect

/-- The length that is told beforehand is that of the text. -/
lemma encode_eq (e : Encoding) (bytes : List UInt8) :
    e.encode bytes = if writtenLength e.codec bytes.length e.options.addPadding < 2 ^ 63 then
        (Cursor.collect (e.cursor bytes)).result.map String.ofList
      else .error ⟨.lengthOverflow, 0⟩ := by
  rw [Encoding.encode, encodedLength_eq]
  generalize writtenLength e.codec bytes.length e.options.addPadding = length
  rw [Codec.checked]
  by_cases hword : length < Codec.lengthLimit
  · rw [if_pos hword]
    rfl
  · have hlong : ¬ length < 2 ^ 63 := fun h => hword (Nat.lt_trans h (by decide))
    rw [if_neg hword, if_neg hlong]

/-- The symbols that the bytes are unrolled to are the text. -/
lemma Writes.of_unroll {symbols : List Char}
    (h : (unroll e 0 bytes (.ended bytes.length) : Tape Char) =
      ⟨[], symbols, .ended bytes.length⟩) : Writes e bytes (String.ofList symbols) := by
  obtain ⟨data, hcarries, hwrites⟩ := writes_all e bytes
  have hsymbols : data ++ List.replicate (padsBehind e data.length) pad = symbols :=
    congrArg Tape.ahead ((hwrites 0 bytes.length).symm.trans h)
  have hlength := length_written hcarries
  have hdrained : (Cursor.collect (e.cursor bytes)).result = .ok symbols := by
    rw [collect_eq_drained, h]
    rfl
  rw [hsymbols] at hlength
  refine ⟨by rw [hdrained, String.toList_ofList], ?_⟩
  rw [encode_eq, hdrained, String.length_ofList, hlength]
  rfl

/-- Bytes are written as the symbols that carry them, and padding. -/
theorem exists_writes (e : Encoding) (bytes : List UInt8) :
    ∃ data, Carries e.codec bytes data ∧
      Writes e bytes (String.ofList (data ++ List.replicate (padsBehind e data.length) pad)) := by
  obtain ⟨data, hcarries, hwrites⟩ := writes_all e bytes
  exact ⟨data, hcarries, .of_unroll (hwrites 0 bytes.length)⟩

lemma Writes.length_eq (h : Writes e bytes text) :
    text.length = writtenLength e.codec bytes.length e.options.addPadding := by
  obtain ⟨data, hcarries, hwrites⟩ := exists_writes e bytes
  rw [h.unique hwrites, String.length_ofList, length_written hcarries]

end Writes

lemma symbolCount_spare (codec : Codec) (n : Nat) :
    codec.bits * codec.symbolCount n - 8 * n < codec.bits := by
  cases codec <;> simp only [Codec.symbolCount, Codec.bits] <;> omega

/-- Bytes are written as one stream of bits, whatever the groups are: the stream is cut into symbols
and filled up with fewer zeros than one symbol has bits. -/
theorem encode_bits (e : Encoding) (bytes : List UInt8) :
    ∃ data zeros,
      Writes e bytes (String.ofList (data ++ List.replicate (padsBehind e data.length) pad)) ∧
        (∀ c ∈ data, IsSymbol e.codec c) ∧
        data.length = (8 * bytes.length) ⌈/⌉ e.codec.bits ∧
        valueBits e.codec (valuesOf e.codec data) =
          byteBits e.codec bytes ++ List.replicate zeros false ∧
        zeros < e.codec.bits := by
  obtain ⟨data, hdata, hwrites⟩ := exists_writes e bytes
  refine ⟨data, _, hwrites, hdata.data_symbol, ?_, hdata.bits, ?_⟩
  · rw [hdata.length, symbolCount_eq_ceilDiv]
  · rw [hdata.length]
    exact symbolCount_spare e.codec bytes.length

end BaseText.Proofs
