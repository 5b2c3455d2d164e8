import BaseText.WholeInput

/-!
# Base64 in bounded pieces

Padded Base64 by way of buffers of a size chosen beforehand: writing fills one small chunk after
the other, reading fills a buffer that is surely large enough. A text that is longer than texts can
be stops the program where room is made for it, which is left out.
-/

namespace BaseText

namespace Chunked

def chunkSize : Nat := 256

/-- The symbols ahead of a cursor, a chunk at a time, for at most `fuel` chunks. The first chunk
that is not full is the last one. -/
def chunks {σ : Type} [Cursor σ Char] : Nat → σ → Except CodingError (List Char)
  | 0, _ => pure []
  | fuel + 1, s => do
    let (outcome, buffer) := Cursor.fill (Array.replicate chunkSize '\x00') s
    let count ← outcome.result
    let chunk := buffer.toList.take count
    if count < chunkSize then pure chunk
    else pure (chunk ++ (← chunks fuel outcome.cursor))

/-- Padded Base64 as it is written and read everywhere else. -/
def encoding : Encoding := { codec := .base64 .base64 }

/-- Padded Base64 as it is written and read everywhere else. -/
def decoding : Decoding := { codec := .base64 .base64 }

def encode (bytes : List UInt8) : Except CodingError String :=
  let cursor := encoding.cursor bytes
  (chunks (Cursor.capacity cursor + 1) cursor).map String.ofList

/-- Reads Base64 into a buffer that every text of this length fits into. -/
def decode (text : String) : Except CodingError (List UInt8) := do
  let room := decoding.codec.decodedLengthBound text.utf8ByteSize
  let (count, buffer) := decoding.decodeInto text (Array.replicate room 0)
  pure (buffer.toList.take (← count))

end Chunked

end BaseText
