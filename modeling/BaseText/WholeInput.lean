import BaseText.Cursor.Buffer
import BaseText.Cursor.Sequence
import BaseText.Cursor.Text
import BaseText.Encoding
import BaseText.Decoding

/-!
# Coding whole inputs

Writing all of some bytes and reading all of a text, into a result that grows or into a buffer of
fixed size. Each of these drains a coding cursor over its input. The length of a text is known
before it is written, and a length that no text can have is refused at once. Reading refuses nothing
for its length: for whatever a text can be read as there can be room. That an allocation may be
refused all the same is left out.
-/

namespace BaseText

namespace Encoding

def cursor (e : Encoding) (bytes : List UInt8) : Encoded (Sequence UInt8) :=
  Grouped.ofCursor e (Sequence.ofList bytes)

def encode (e : Encoding) (bytes : List UInt8) : Except CodingError String :=
  match e.codec.encodedLength? bytes.length e.options.addPadding with
  | none => .error ⟨.lengthOverflow, 0⟩
  | some length =>
    if length < Codec.sizeLimit then (Cursor.collect (e.cursor bytes)).result.map String.ofList
    else .error ⟨.lengthOverflow, 0⟩

/-- The code of a character that fits one byte. -/
def byteOfChar? (c : Char) : Option UInt8 :=
  if c.toNat < 256 then some c.toUInt8 else none

/-- Writes bytes as ASCII text into a buffer and counts the symbols. The buffer comes back whatever
the outcome is. -/
def encodeInto (e : Encoding) (bytes : List UInt8) (buffer : Array UInt8) :
    Except CodingError Nat × Array UInt8 :=
  let outcome := Filling.drain byteOfChar? { cursor := e.cursor bytes, buffer }
  (outcome.result, outcome.cursor.buffer)

end Encoding

namespace Decoding

def cursor (d : Decoding) (text : String) : Decoded TextCursor :=
  Grouped.ofCursor d (TextCursor.ofString text)

def decode (d : Decoding) (text : String) : Except CodingError (List UInt8) :=
  (Cursor.collect (d.cursor text)).result

/-- Reads a text as bytes into a buffer and counts them. The buffer comes back whatever the outcome
is. -/
def decodeInto (d : Decoding) (text : String) (buffer : Array UInt8) :
    Except CodingError Nat × Array UInt8 :=
  let outcome := Filling.drain some { cursor := d.cursor text, buffer }
  (outcome.result, outcome.cursor.buffer)

end Decoding

end BaseText
