import BaseText.Chunked

/-!
# Adapters

Ways to write and read padded Base64 that can stand in for each other. What goes wrong is told in
words.
-/

namespace BaseText

/-- An implementation of padded Base64. -/
structure Adapter where
  name : String
  encode : List UInt8 → Except String String
  decode : String → Except String (List UInt8)

namespace Adapter

/-- Whole inputs at once. -/
def oneShot : Adapter where
  name := "cursor-codec"
  encode bytes := (Chunked.encoding.encode bytes).mapError CodingError.message
  decode text := (Chunked.decoding.decode text).mapError CodingError.message

/-- By way of buffers of a size chosen beforehand. -/
def chunked : Adapter where
  name := "cursor-codec-chunked"
  encode bytes :=
    match Chunked.encoding.codec.encodedLength? bytes.length true with
    | none => .error "length overflow"
    | some _ => (Chunked.encode bytes).mapError CodingError.message
  decode text := (Chunked.decode text).mapError CodingError.message

def all : List Adapter := [oneShot, chunked]

end Adapter

end BaseText
