/-!
# UTF-8

How much of some bytes is the UTF-8 form of a text.
-/

namespace BaseText

namespace Utf8

/-- The end of the longest run of encoded characters that begins at `start`. -/
def validLength (bytes : ByteArray) (start : Nat) : Nat :=
  match _h : bytes.utf8DecodeChar? start with
  | some c => validLength bytes (start + c.utf8Size)
  | none => start
termination_by bytes.size - start
decreasing_by
  have := ByteArray.le_size_of_utf8DecodeChar?_eq_some _h
  have := c.utf8Size_pos
  omega

/-- The text with the given UTF-8 form. Other bytes are refused after their longest prefix that is
one. -/
def decode (bytes : ByteArray) : Except Nat String :=
  if valid : bytes.IsValidUTF8 then .ok (String.ofByteArray bytes valid)
  else .error (validLength bytes 0)

/-- The text behind a quick check that names no place. What that refuses is checked again. -/
def decodeVia (quick : ByteArray → Option String) (bytes : ByteArray) : Except Nat String :=
  match quick bytes with
  | some text => .ok text
  | none => decode bytes

end Utf8

end BaseText
