import BaseText.Cursor.Grouped

/-!
# Decoding cursors

A decoding reads each group of symbols back into bytes. A group is checked as a whole before any
of its bytes is shown: first symbol by symbol, then, when no more symbols follow, for being
complete.
-/

namespace BaseText

/-- How text is read. -/
structure DecodeOptions where
  /-- Refuse a short final group that is not filled up with padding symbols. -/
  requirePadding : Bool := true
deriving DecidableEq, Repr

namespace DecodeOptions

def lenient : DecodeOptions := { requirePadding := false }

def record (options : DecodeOptions) : String :=
  BaseText.record "DecodeOptions" [("require_padding", toString options.requirePadding)]

end DecodeOptions

/-- A codec together with the way text is read in it. -/
structure Decoding where
  codec : Codec
  options : DecodeOptions := {}
deriving DecidableEq

namespace Decoding

/-- The codec reads this symbol as padding. -/
def isPad (d : Decoding) (c : Char) : Bool := d.codec.isPadded && c == pad

def padCount (d : Decoding) (symbols : List Char) : Nat := symbols.countP d.isPad

def dataCount (d : Decoding) (symbols : List Char) : Nat := symbols.length - d.padCount symbols

/-- Why a symbol cannot follow the symbols of its group: padding needs enough data before it, data
must not follow padding, and every other symbol has to be one of the codec. -/
def refuse? (d : Decoding) (symbols : List Char) (c : Char) : Option Cause :=
  if d.isPad c then
    if d.padCount symbols = 0 && !d.codec.isByteAligned (d.dataCount symbols) then
      some .unexpectedPadding
    else none
  else if 0 < d.padCount symbols then some .expectedPadding
  else if (d.codec.value? c).isNone then some .invalidCharacter
  else none

/-- Why a text cannot end after the symbols of a short group. -/
def fault? (d : Decoding) (symbols : List Char) : Option Cause :=
  if 0 < d.padCount symbols then some .expectedPadding
  else if d.codec = .base16 then some .oddLength
  else if !d.codec.isByteAligned (d.dataCount symbols) then some .incompleteGroup
  else if d.options.requirePadding then some .expectedPadding
  else none

def groupBytes (d : Decoding) (symbols : List Char) : List UInt8 :=
  d.codec.bytesOfValues (symbols.filterMap d.codec.value?)

/-- What follows a group: another one if every symbol of a complete group carries data, and
nothing otherwise. -/
def ending (d : Decoding) (symbols : List Char) : Ending :=
  if 0 < d.padCount symbols then .sealed
  else if symbols.length = d.codec.groupSymbols then .more
  else .last

instance : GroupCode Decoding Char UInt8 where
  size d := d.codec.groupSymbols
  growth _ := 1
  refuse? := refuse?
  close d symbols :=
    match if symbols.length < d.codec.groupSymbols then d.fault? symbols else none with
    | some cause => .error cause
    | none => .ok (d.groupBytes symbols, d.ending symbols)
  rejected d error := .rejected d.codec error
  reread _ start := .rereadSymbols start

end Decoding

/-- A cursor over the bytes that the symbols of another one are read as. -/
abbrev Decoded (σ : Type) : Type := Grouped Decoding σ UInt8

end BaseText
