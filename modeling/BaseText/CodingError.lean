/-!
# Errors

A failed operation names the cause and the offset at which it was noticed. Causes fall into
four families, and the family decides how the error is worded.
-/

namespace BaseText

/-- Who has to act on an error: the caller's moves, the input, the configuration or the room. -/
inductive Family where
  | contract
  | malformed
  | config
  | resource
deriving DecidableEq, Repr

/-- Why an operation failed. -/
inductive Cause where
  | exhausted
  | invalidCharacter
  | unexpectedPadding
  | expectedPadding
  | incompleteGroup
  | oddLength
  | trailingSymbols
  | invalidUtf8
  | invalidAlphabet
  | bufferTooSmall
  | lengthOverflow
  | allocationFailed
deriving DecidableEq, Repr

namespace Cause

def family : Cause → Family
  | exhausted => .contract
  | invalidCharacter | unexpectedPadding | expectedPadding | incompleteGroup | oddLength
  | trailingSymbols | invalidUtf8 => .malformed
  | invalidAlphabet => .config
  | bufferTooSmall | lengthOverflow | allocationFailed => .resource

/-- The stable name of a cause, as it stands in log lines and records. -/
def label : Cause → String
  | exhausted => "Exhausted"
  | invalidCharacter => "InvalidCharacter"
  | unexpectedPadding => "UnexpectedPadding"
  | expectedPadding => "ExpectedPadding"
  | incompleteGroup => "IncompleteGroup"
  | oddLength => "OddLength"
  | trailingSymbols => "TrailingSymbols"
  | invalidUtf8 => "InvalidUtf8"
  | invalidAlphabet => "InvalidAlphabet"
  | bufferTooSmall => "BufferTooSmall"
  | lengthOverflow => "LengthOverflow"
  | allocationFailed => "AllocationFailed"

def explanation : Cause → String
  | exhausted => "cursor exhausted"
  | invalidCharacter => "symbol not in alphabet"
  | unexpectedPadding => "padding before end of group data"
  | expectedPadding => "missing or incomplete padding"
  | incompleteGroup => "trailing symbols do not form a whole byte"
  | oddLength => "odd number of hex digits"
  | trailingSymbols => "symbols after final padded group"
  | invalidUtf8 => "input must be valid UTF-8"
  | invalidAlphabet => "invalid alphabet"
  | bufferTooSmall => "output buffer too small"
  | lengthOverflow => "length overflow"
  | allocationFailed => "allocation failed"

def all : List Cause :=
  [exhausted, invalidCharacter, unexpectedPadding, expectedPadding, incompleteGroup, oddLength,
    trailingSymbols, invalidUtf8, invalidAlphabet, bufferTooSmall, lengthOverflow,
    allocationFailed]

def ofLabel? (name : String) : Option Cause :=
  all.find? (·.label == name)

end Cause

def Family.label : Family → String
  | contract => "Contract"
  | malformed => "Malformed"
  | config => "Config"
  | resource => "Resource"

/-- A cause together with the offset at which it was noticed. For malformed input this is the
index of the offending symbol, for an exhausted cursor the position it stands at. -/
structure CodingError where
  cause : Cause
  offset : Nat
deriving DecidableEq, Repr

namespace CodingError

/-- A cursor that stands at `offset` was asked for a unit past one of its ends. -/
def exhausted (offset : Nat) : CodingError := ⟨.exhausted, offset⟩

def family (e : CodingError) : Family := e.cause.family

/-- The input itself was rejected. -/
def isMalformed (e : CodingError) : Bool := e.family == .malformed

/-- The error in words, in the form its family prescribes. -/
def message (e : CodingError) : String :=
  match e.family with
  | .contract => s!"cursor exhausted at {e.offset}"
  | .malformed => s!"decode failed at {e.offset}: {e.cause.explanation}"
  | .config => s!"{e.cause.explanation} (symbol {e.offset})"
  | .resource => s!"codec failed at {e.offset}: {e.cause.explanation}"

end CodingError

end BaseText
