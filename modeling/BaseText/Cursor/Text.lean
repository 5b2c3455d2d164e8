import BaseText.Cursor
import BaseText.Text.Utf8

/-!
# Cursors over text

A cursor over a string keeps two positions: the place in the UTF-8 form, which always lies between
two characters, and the number of characters before it. The second is its index.
-/

namespace BaseText

/-- A position in a text. -/
structure TextCursor where
  text : String
  pos : text.Pos
  index : Nat

namespace TextCursor

/-- A cursor before the first character. -/
def ofString (text : String) : TextCursor := ⟨text, text.startPos, 0⟩

/-- The text ahead. -/
def rest (s : TextCursor) : String := (s.text.sliceFrom s.pos).copy

/-- A cursor over bytes that are the UTF-8 form of a text. Other bytes are refused after their
longest prefix that is one. A quick check of the whole, if there is one, comes first. -/
def ofUtf8Via (quick : ByteArray → Option String) (bytes : ByteArray) :
    Except CodingError TextCursor :=
  match Utf8.decodeVia quick bytes with
  | .ok text => .ok (ofString text)
  | .error valid => .error ⟨.invalidUtf8, valid⟩

/-- The same without a quick check. -/
def ofUtf8 (bytes : ByteArray) : Except CodingError TextCursor :=
  ofUtf8Via (fun _ => none) bytes

/-- The next character and the position after it. -/
def forward? (s : TextCursor) : Option (Char × TextCursor) :=
  if h : s.pos = s.text.endPos then none
  else some (s.pos.get h, ⟨s.text, s.pos.next h, s.index + 1⟩)

/-- The previous character and the position before it. -/
def backward? (s : TextCursor) : Option (Char × TextCursor) :=
  if h : s.pos = s.text.startPos then none
  else some ((s.pos.prev h).get String.Pos.prev_ne_endPos, ⟨s.text, s.pos.prev h, s.index - 1⟩)

instance : Cursor TextCursor Char :=
  .ofSteps forward? backward? index fun s => s.text.utf8ByteSize

end TextCursor

end BaseText
