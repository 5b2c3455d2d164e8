import BaseText.Cursor.Grouped

/-!
# Encoding cursors

An encoding turns each group of bytes into the symbols of a codec. A short final group becomes as
many symbols as carry its bytes, and padding symbols up to a complete group where the codec and
the options ask for them.
-/

namespace BaseText

/-- How bytes are written. -/
structure EncodeOptions where
  /-- Fill up a short final group with padding symbols. -/
  addPadding : Bool := true
  toUpperCase : Bool := false
deriving DecidableEq, Repr

namespace EncodeOptions

def unpadded : EncodeOptions := { addPadding := false }

def upperCase : EncodeOptions := { toUpperCase := true }

def record (options : EncodeOptions) : String :=
  BaseText.record "EncodeOptions"
    [("add_padding", toString options.addPadding), ("to_upper_case", toString options.toUpperCase)]

end EncodeOptions

/-- A codec together with the way bytes are written in it. -/
structure Encoding where
  codec : Codec
  options : EncodeOptions := {}
deriving DecidableEq

namespace Encoding

/-- The symbols that carry the bytes of one group. -/
def dataSymbols (e : Encoding) (bytes : List UInt8) : List Char :=
  (e.codec.valuesOfBytes bytes).map fun v => e.codec.symbol v e.options.toUpperCase

def groupSymbols (e : Encoding) (bytes : List UInt8) : List Char :=
  let symbols := e.dataSymbols bytes
  if e.options.addPadding && e.codec.isPadded then
    symbols.rightpad e.codec.groupSymbols pad
  else symbols

instance : GroupCode Encoding UInt8 Char where
  size e := e.codec.groupBytes
  growth e := e.codec.groupSymbols
  refuse? _ _ _ := none
  close e bytes :=
    if bytes.length = e.codec.groupBytes then .ok (e.dataSymbols bytes, .more)
    else .ok (e.groupSymbols bytes, .last)
  rejected e error := .rejected e.codec error
  reread _ start := .rereadBytes start

end Encoding

/-- A cursor over the symbols that the bytes of another one are written with. -/
abbrev Encoded (σ : Type) : Type := Grouped Encoding σ Char

end BaseText
