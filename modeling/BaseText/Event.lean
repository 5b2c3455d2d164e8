import BaseText.Record

/-!
# Log events

Two things are worth a line in the log: that input was rejected, and that moving backward made a
codec read a group again.
-/

namespace BaseText

inductive Event where
  | rejected (codec : Codec) (error : CodingError)
  /-- An encoding cursor reads the group that starts at this byte again. -/
  | rereadBytes (start : Nat)
  /-- A decoding cursor reads the group that starts at this symbol again. -/
  | rereadSymbols (start : Nat)
deriving DecidableEq

namespace Event

def isRejection : Event → Bool
  | rejected _ _ => true
  | rereadBytes _ | rereadSymbols _ => false

def level (event : Event) : String :=
  if event.isRejection then "DEBUG" else "TRACE"

def text : Event → String
  | rejected codec e => s!"{codec.record} rejected at symbol {e.offset}: {e.cause.label}"
  | rereadBytes start => s!"encoder re-reading group at byte {start}"
  | rereadSymbols start => s!"decoder re-reading group at symbol {start}"

def line (event : Event) : String :=
  s!"{event.level} cursor_codec: {event.text}"

end Event

end BaseText
