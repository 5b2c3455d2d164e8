import BaseText.Proofs.Buffers
import BaseText.Proofs.Lengths
import BaseText.Proofs.Views

/-!
# Coding into buffers

Decoding into a buffer writes what the groups in front of the first rejected one become, as far as
there is room, and leaves what lies behind that alone. Whether it is the room or the text that is
reported depends on which of them ends first: a group is read before there is seen to be no room
for it. Encoding into a buffer fails only for want of room, and how much room it wants is known
beforehand.
-/

namespace BaseText.Proofs

/-- The symbols of the groups in front of the first one that is rejected. -/
def soundPart (d : Decoding) (text : String) : List Char :=
  match d.decode text with
  | .ok _ => text.toList
  | .error e => groupsBefore d.codec.groupSymbols e.offset text.toList

lemma shownSymbols_text (d : Decoding) (text : String) (offset : Nat) :
    shownSymbols d text.toList (.ended offset) = soundPart d text := by
  unfold shownSymbols rejection? soundPart
  rw [String.ofList_toList]
  cases d.decode text <;> rfl

/-- Of a text, the bytes that `soundPart` is decoded into go into the buffer. -/
theorem decodeInto_eq (d : Decoding) (text : String) (buffer : Array UInt8) :
    ∃ bytes, d.decode (String.ofList (soundPart d text)) = .ok bytes ∧
      d.decodeInto text buffer =
        if buffer.size < bytes.length then
          (.error ⟨.bufferTooSmall, buffer.size⟩, (bytes.take buffer.size).toArray)
        else
          ((d.decode text).map fun _ => bytes.length,
            (bytes ++ buffer.toList.drop bytes.length).toArray) := by
  obtain ⟨bytes, hbytes, htape⟩ := unroll_isView d 0 text.toList (.ended text.toList.length)
  generalize shownStop d 0 text.toList (.ended text.toList.length) = stop at htape
  rw [shownSymbols_text] at hbytes
  have hdecode := decode_eq_drained d text
  rw [Tape.drained_eq, htape] at hdecode
  have hshows : Shows (d.cursor text)
      (unroll d 0 text.toList (.ended text.toList.length)).counted :=
    group_shows (text_shows text) d
  rw [htape] at hshows
  have hself : ∀ b ∈ bytes, some b = some (id b) := fun _ _ => rfl
  have hdrain := drain_meets simulation hshows hself buffer
  have hresult : (d.decodeInto text buffer).1 =
      if bytes.length ≤ buffer.size then (stop.atOffset bytes.length).yields bytes.length
      else .error ⟨.bufferTooSmall, buffer.size⟩ := hdrain.result
  have hbuffer : (d.decodeInto text buffer).2 = filledWith buffer (bytes.map id) :=
    hdrain.cursor.buffer_eq
  rw [List.map_id] at hbuffer
  refine ⟨bytes, hbytes, ?_⟩
  by_cases hroom : buffer.size < bytes.length
  · rw [if_neg (by omega)] at hresult
    rw [filledWith_of_lt hroom] at hbuffer
    rw [if_pos hroom]
    exact Prod.ext hresult hbuffer
  · have hle : bytes.length ≤ buffer.size := Nat.not_lt.1 hroom
    rw [if_pos hle, Stop.yields_atOffset] at hresult
    rw [filledWith_of_le hle] at hbuffer
    rw [if_neg hroom, hdecode, Stop.map_yields]
    exact Prod.ext hresult hbuffer

/-- A text as bytes, in UTF-8. -/
def utf8Bytes (text : String) : List UInt8 := text.toUTF8.data.toList

section Ascii

variable {c : Char} {l : List Char}

lemma utf8EncodeChar_of_ascii (h : c.toNat < 128) : String.utf8EncodeChar c = [c.toUInt8] := by
  have hval : c.val ≤ 127 := UInt32.le_iff_toNat_le.2 (Nat.le_of_lt_succ h)
  exact String.utf8EncodeChar_eq_singleton (Char.utf8Size_eq_one_iff.2 hval)

/-- ASCII text has one byte for each character. -/
lemma utf8Bytes_of_ascii (h : ∀ c ∈ l, c.toNat < 128) :
    utf8Bytes (String.ofList l) = l.map Char.toUInt8 := by
  rw [utf8Bytes, String.toUTF8, String.toByteArray_ofList, List.utf8Encode,
    List.toList_data_toByteArray, List.map_eq_flatMap]
  exact List.flatMap_congr fun c hc => utf8EncodeChar_of_ascii (h c hc)

end Ascii

lemma written_ascii {e : Encoding} {bytes : List UInt8} {data : List Char}
    (h : Carries e.codec bytes data) (pads : Nat) :
    ∀ c ∈ data ++ List.replicate pads pad, c.toNat < 128 := by
  intro c hc
  obtain hc | hc := List.mem_append.1 hc
  · exact toNat_lt_of_isSymbol (h.data_symbol c hc)
  · rw [List.eq_of_mem_replicate hc]
    decide

/-- The text that bytes are encoded into, byte by byte, goes into the buffer. Its length is the one
that is computed from the number of bytes. -/
theorem encodeInto_eq (e : Encoding) (bytes : List UInt8) (buffer : Array UInt8) :
    ∃ text, Writes e bytes text ∧ (∀ c ∈ text.toList, c.toNat < 128) ∧
      e.codec.encodedLength? bytes.length e.options.addPadding =
        Codec.checked (utf8Bytes text).length ∧
      (bytes.length < 2 ^ 63 →
        e.codec.encodedLength? bytes.length e.options.addPadding =
          some (utf8Bytes text).length) ∧
      e.encodeInto bytes buffer =
        if buffer.size < (utf8Bytes text).length then
          (.error ⟨.bufferTooSmall, buffer.size⟩, ((utf8Bytes text).take buffer.size).toArray)
        else
          (.ok (utf8Bytes text).length,
            (utf8Bytes text ++ buffer.toList.drop (utf8Bytes text).length).toArray) := by
  obtain ⟨data, hcarries, hwrites⟩ := writes_all e bytes
  have hlength := length_written hcarries
  have hascii := written_ascii hcarries (padsBehind e data.length)
  have hunroll := hwrites 0 bytes.length
  generalize data ++ List.replicate (padsBehind e data.length) pad = symbols at *
  have hwrites : Writes e bytes (String.ofList symbols) := .of_unroll hunroll
  have hbytes : utf8Bytes (String.ofList symbols) = symbols.map Char.toUInt8 :=
    utf8Bytes_of_ascii hascii
  have hsize : (utf8Bytes (String.ofList symbols)).length =
      writtenLength e.codec bytes.length e.options.addPadding := by
    rw [hbytes, List.length_map, hlength]
  refine ⟨String.ofList symbols, hwrites, ?_, ?_, fun hshort => ?_, ?_⟩
  · rwa [String.toList_ofList]
  · rw [encodedLength_eq, hsize]
  · rw [encodedLength_eq, hsize, Codec.checked]
    exact if_pos (writtenLength_lt e.codec hshort _)
  · have hshows : Shows (e.cursor bytes) (unroll e 0 bytes (.ended bytes.length)).counted :=
      group_shows (sequence_shows bytes) e
    rw [hunroll] at hshows
    have hconvert : ∀ c ∈ symbols, Encoding.byteOfChar? c = some c.toUInt8 := fun c hc =>
      if_pos (Nat.lt_trans (hascii c hc) (by decide))
    have hdrain := drain_eq simulation hshows hconvert buffer rfl
    rw [hbytes, List.length_map]
    exact hdrain

/-- A buffer that the padding does not fit into any more. -/
theorem encodeInto_eq_noRoom :
    2 < 2 ^ 63 ∧
      (Codec.base64 .base64).encodedLength? 2 true = some (utf8Bytes "Zm8=").length ∧
      Encoding.encodeInto { codec := .base64 .base64 } [0x66, 0x6f] #[0, 0, 0] =
        (.error ⟨.bufferTooSmall, 3⟩, #[0x5a, 0x6d, 0x38]) := by
  obtain ⟨text, hwrites, -, -, hlength, hinto⟩ :=
    encodeInto_eq { codec := .base64 .base64 } [0x66, 0x6f] #[0, 0, 0]
  have hverdict : Encoding.encode { codec := .base64 .base64 } [0x66, 0x6f] = .ok "Zm8=" := by
    decide +kernel
  obtain rfl : "Zm8=" = text := hwrites.eq_of_ok hverdict
  exact ⟨by decide, hlength (by decide), hinto⟩

end BaseText.Proofs
