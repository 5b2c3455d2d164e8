import BaseText.Adapter
import BaseText.Proofs.Draining
import BaseText.Proofs.Ends
import BaseText.Proofs.Lengths
import BaseText.Proofs.Reading

/-!
# Adapters stand in for each other

Chunk after chunk, a cursor gives what it gives at once, whether or not the last chunk is full. A
buffer as large as the length of a text calls for is never too small for what the text becomes.
-/

namespace BaseText.Proofs

lemma take_filledWith {α : Type} (buffer : Array α) (units : List α) :
    (filledWith buffer units).toList.take (min buffer.size units.length) =
      units.take buffer.size := by
  have hlength : (units.take buffer.size).length = min buffer.size units.length :=
    List.length_take
  rw [filledWith, ← hlength, List.take_left]

section Chunks

variable {σ : Type} [Cursor σ Char] {fuel count : Nat} {s : σ}

/-- The chunk before it is filled. -/
def emptyChunk : Array Char := Array.replicate Chunked.chunkSize '\x00'

/-- What filling the first chunk comes to. -/
def firstFill (s : σ) : Outcome σ Nat × Array Char := Cursor.fill emptyChunk s

lemma chunks_of_ok (h : (firstFill s).1.result = .ok count) :
    Chunked.chunks (fuel + 1) s =
      if count < Chunked.chunkSize then .ok ((firstFill s).2.toList.take count)
      else (Chunked.chunks fuel (firstFill s).1.cursor).map
        ((firstFill s).2.toList.take count ++ ·) := by
  rw [Chunked.chunks, ← emptyChunk, ← firstFill]
  generalize firstFill s = filled at h ⊢
  obtain ⟨⟨result, cursor, log⟩, buffer⟩ := filled
  obtain rfl : result = .ok count := h
  rfl

lemma chunks_of_error {e : CodingError} (h : (firstFill s).1.result = .error e) :
    Chunked.chunks (fuel + 1) s = .error e := by
  rw [Chunked.chunks, ← emptyChunk, ← firstFill]
  generalize firstFill s = filled at h ⊢
  obtain ⟨⟨result, cursor, log⟩, buffer⟩ := filled
  obtain rfl : result = .error e := h
  rfl

/-- With fuel for more chunks than there are units ahead, no chunk is left out. -/
lemma chunks_shows [Viewed σ Char] {t : Tape Char} (h : Shows s t)
    (hfuel : t.ahead.length < fuel) : Chunked.chunks fuel s = t.stop.yields t.ahead := by
  induction fuel generalizing s t with
  | zero => omega
  | succ fuel ih =>
    have hpos : 0 < Chunked.chunkSize := by decide
    have hsize : emptyChunk.size = Chunked.chunkSize := Array.size_replicate
    have hfills := fillsFrom_of_shows h emptyChunk
    have hresult : (firstFill s).1.result = _ := hfills.result
    have hcontents : (firstFill s).2 = _ := hfills.contents
    have hpast : Shows (firstFill s).1.cursor _ := (fill_past ⟨h, rfl⟩ emptyChunk).shows
    have hfront := take_filledWith emptyChunk t.ahead
    rw [← hcontents] at hfront
    rw [hsize] at hresult hfront hpast
    by_cases hfull : Chunked.chunkSize ≤ t.ahead.length
    · have hmore := ih hpast (by simp only [Tape.past, List.length_drop]; omega)
      rw [if_pos hfull] at hresult
      rw [Nat.min_eq_left hfull] at hfront
      rw [chunks_of_ok hresult, if_neg (Nat.lt_irrefl _), hmore, hfront, Stop.map_yields]
      exact congrArg _ (List.take_append_drop _ _)
    · have hshort : t.ahead.length < Chunked.chunkSize := Nat.not_le.1 hfull
      have hall : t.ahead.take Chunked.chunkSize = t.ahead :=
        List.take_of_length_le (Nat.le_of_lt hshort)
      rw [if_neg hfull] at hresult
      rw [Nat.min_eq_right (Nat.le_of_lt hshort), hall] at hfront
      cases hstop : t.stop with
      | ended offset =>
        rw [hstop] at hresult
        rw [chunks_of_ok hresult, if_pos hshort, hfront]
        rfl
      | rejected codec e =>
        rw [hstop] at hresult
        exact chunks_of_error hresult

end Chunks

lemma chunked_encode {bytes : List UInt8} {text : String}
    (h : Writes Chunked.encoding bytes text) : Chunked.encode bytes = .ok text := by
  have hshows : Shows (Chunked.encoding.cursor bytes)
      (unroll Chunked.encoding 0 bytes (.ended bytes.length)).counted :=
    group_shows (sequence_shows bytes) Chunked.encoding
  have hchunks := chunks_shows hshows (Nat.lt_succ_of_le (simulation.ahead_le hshows))
  rw [← Tape.drained_eq, Tape.drained_counted, ← collect_eq_drained, h.drained] at hchunks
  rw [Chunked.encode, hchunks, Except.map, String.ofList_toList]

/-- The room that is made for what a text of this size becomes. -/
def roomFor (text : String) : Nat :=
  Chunked.decoding.codec.decodedLengthBound text.utf8ByteSize

/-- With enough room, a text is decoded into a buffer as it is without one. -/
lemma exists_decodeInto {text : String} (h : text.utf8ByteSize < 2 ^ 64) :
    ∃ bytes rest stop, Stop.IsPlain stop ∧ Chunked.decoding.decode text = stop.yields bytes ∧
      Chunked.decoding.decodeInto text (Array.replicate (roomFor text) 0) =
        (stop.yields bytes.length, (bytes ++ rest).toArray) := by
  have hcount : text.toList.length ≤ text.utf8ByteSize := by
    have hle := length_le_utf8ByteSize text.toList
    rwa [String.ofList_toList] at hle
  have hplain : (unroll Chunked.decoding 0 text.toList (.ended text.toList.length) :
      Tape UInt8).stop.IsPlain := unroll_isPlain (decoding_refusesMalformed _) trivial
  have hbound := unroll_length_bound Chunked.decoding (Nat.lt_of_le_of_lt hcount h) 0
    (.ended text.toList.length)
  have hroom := Nat.le_trans hbound (decodedLengthBound_monotone _ hcount)
  have hdecode := decode_eq_drained Chunked.decoding text
  have hshows : Shows (Chunked.decoding.cursor text)
      (unroll Chunked.decoding 0 text.toList (.ended text.toList.length)).counted :=
    group_shows (text_shows text) Chunked.decoding
  generalize (unroll Chunked.decoding 0 text.toList (.ended text.toList.length) : Tape UInt8) =
    view at hplain hroom hdecode hshows
  have hself : ∀ b ∈ view.ahead, some b = some (id b) := fun _ _ => rfl
  have hdrain := drain_eq simulation hshows hself (Array.replicate (roomFor text) 0) rfl
  have hfits : ¬ roomFor text < view.counted.ahead.length := Nat.not_lt.2 hroom
  rw [Array.size_replicate, if_neg hfits, List.map_id, Tape.counted,
    Stop.yields_atOffset] at hdrain
  exact ⟨view.ahead, _, view.stop, hplain, hdecode.trans view.drained_eq, hdrain⟩

/-- What is done in pieces comes to what is done at once, errors included. Both write the text of
the bytes, as long as there can be one. No memory holds a text so long that the room for what
becomes of it could not be told beforehand. -/
theorem chunked_eq_oneShot :
    (∀ bytes, writtenLength (.base64 .base64) bytes.length true < 2 ^ 63 →
        ∃ text, Writes Chunked.encoding bytes text ∧
          Adapter.chunked.encode bytes = .ok text ∧ Adapter.oneShot.encode bytes = .ok text) ∧
      ∀ text, text.utf8ByteSize < 2 ^ 64 →
        Adapter.chunked.decode text = Adapter.oneShot.decode text ∧
          ∀ offset, (Chunked.decoding.decodeInto text (Array.replicate (roomFor text) 0)).1 ≠
            .error ⟨.bufferTooSmall, offset⟩ := by
  refine ⟨fun bytes hbytes => ?_, fun text htext => ?_⟩
  · obtain ⟨data, -, hwrites⟩ := exists_writes Chunked.encoding bytes
    have hencode := hwrites.encode_ok (by rw [hwrites.length_eq]; exact hbytes)
    have hlength : Chunked.encoding.codec.encodedLength? bytes.length true =
        some (writtenLength (.base64 .base64) bytes.length true) := by
      rw [encodedLength_eq, Codec.checked]
      exact if_pos (Nat.lt_trans hbytes (by decide))
    refine ⟨_, hwrites, ?_, ?_⟩
    · simp only [Adapter.chunked, hlength, chunked_encode hwrites]
      rfl
    · simp only [Adapter.oneShot, hencode]
      rfl
  · obtain ⟨bytes, rest, stop, hplain, hdecode, hinto⟩ := exists_decodeInto htext
    have hchunked : Chunked.decode text = Chunked.decoding.decode text := by
      rw [Chunked.decode, ← roomFor, hinto, hdecode]
      cases stop with
      | ended offset => exact congrArg Except.ok List.take_left
      | rejected codec e => rfl
    refine ⟨congrArg (Except.mapError CodingError.message) hchunked, fun offset hsmall => ?_⟩
    rw [hinto] at hsmall
    cases stop with
    | ended offset => cases hsmall
    | rejected codec e =>
      cases hsmall
      cases hplain

/-- Bytes whose text fills one chunk exactly, two bytes, and a text with a character that takes two
bytes. -/
theorem chunked_eq_oneShot_edge :
    writtenLength (.base64 .base64) (List.replicate 192 (0 : UInt8)).length true < 2 ^ 63 ∧
      (∃ text, text.length = Chunked.chunkSize ∧
        Adapter.chunked.encode (List.replicate 192 0) = .ok text ∧
        Adapter.oneShot.encode (List.replicate 192 0) = .ok text) ∧
      Adapter.chunked.encode [0x66, 0x6f] = .ok "Zm8=" ∧
      "Zmé=".utf8ByteSize < 2 ^ 64 ∧
      Adapter.chunked.decode "Zmé=" = .error "decode failed at 2: symbol not in alphabet" := by
  have hbytes : writtenLength (.base64 .base64) (List.replicate 192 (0 : UInt8)).length true <
      2 ^ 63 := by
    rw [List.length_replicate]
    decide
  have htext : "Zmé=".utf8ByteSize < 2 ^ 64 := by decide
  have hwritten : Chunked.encoding.encode [0x66, 0x6f] = .ok "Zm8=" := by decide +kernel
  have hrejected : Adapter.oneShot.decode "Zmé=" =
      .error "decode failed at 2: symbol not in alphabet" := by decide +kernel
  obtain ⟨hencode, hdecode⟩ := chunked_eq_oneShot
  obtain ⟨text, hwrites, hchunked, honce⟩ := hencode _ hbytes
  obtain ⟨short, hshort, hchunkedShort, -⟩ := hencode [0x66, 0x6f] (by decide)
  obtain rfl := hshort.eq_of_ok hwritten
  have hlength : text.length = Chunked.chunkSize := by
    rw [hwrites.length_eq, List.length_replicate]
    decide
  exact ⟨hbytes, ⟨text, hlength, hchunked, honce⟩, hchunkedShort, htext,
    (hdecode _ htext).1.trans hrejected⟩

end BaseText.Proofs
