import BaseText.Alphabet

/-!
# Codecs

A codec is one of the three text forms of bytes: hexadecimal digits, Base32 or Base64, the last
two with a table of their own. Each turns groups of `groupBytes` bytes into groups of
`groupSymbols` symbols of `bits` bits, so that `8 * groupBytes = bits * groupSymbols`.
-/

namespace BaseText

/-- A text form of bytes. -/
inductive Codec where
  /-- Two hexadecimal digits a byte, high half first. -/
  | base16
  /-- Five bytes to eight symbols. -/
  | base32 (alphabet : Alphabet 5)
  /-- Three bytes to four symbols. -/
  | base64 (alphabet : Alphabet 6)
deriving DecidableEq

namespace Codec

def bits : Codec → Nat
  | base16 => 4
  | base32 _ => 5
  | base64 _ => 6

def groupBytes : Codec → Nat
  | base16 => 1
  | base32 _ => 5
  | base64 _ => 3

def groupSymbols : Codec → Nat
  | base16 => 2
  | base32 _ => 8
  | base64 _ => 4

def order : Codec → BitOrder
  | base16 => .bigEndian
  | base32 a => a.order
  | base64 a => a.order

/-- A short final group may be filled up with padding symbols. -/
def isPadded : Codec → Bool
  | base16 => false
  | base32 _ | base64 _ => true

/-- The same codec with its bits in another order; hexadecimal digits have only one. -/
def withOrder (order : BitOrder) : Codec → Codec
  | base16 => base16
  | base32 a => base32 (a.withOrder order)
  | base64 a => base64 (a.withOrder order)

/-- The hexadecimal digit of the low four bits of a value. -/
def hexDigit (value : Nat) (upper : Bool) : Char :=
  let v := value % 16
  if v < 10 then Char.ofNat ('0'.toNat + v)
  else Char.ofNat ((if upper then 'A' else 'a').toNat + (v - 10))

/-- The value of a hexadecimal digit of either case. -/
def hexValue? (c : Char) : Option Nat :=
  if '0' ≤ c ∧ c ≤ '9' then some (c.toNat - '0'.toNat)
  else if 'a' ≤ c ∧ c ≤ 'f' then some (c.toNat - 'a'.toNat + 10)
  else if 'A' ≤ c ∧ c ≤ 'F' then some (c.toNat - 'A'.toNat + 10)
  else none

/-- The symbol of a value; `upper` chooses the case of hexadecimal digits and nothing else. -/
def symbol (codec : Codec) (value : Nat) (upper : Bool) : Char :=
  match codec with
  | base16 => hexDigit value upper
  | base32 a => a.symbol value
  | base64 a => a.symbol value

def value? (codec : Codec) (c : Char) : Option Nat :=
  match codec with
  | base16 => hexValue? c
  | base32 a => a.value? c
  | base64 a => a.value? c

/-- The fewest symbols that carry `bytes` bytes. -/
def symbolCount (codec : Codec) (bytes : Nat) : Nat :=
  (bytes * 8 + codec.bits - 1) / codec.bits

/-- The whole bytes that `symbols` symbols carry. -/
def byteCount (codec : Codec) (symbols : Nat) : Nat :=
  symbols * codec.bits / 8

/-- Some whole bytes, at least one, are written with exactly this many symbols. -/
def isByteAligned (codec : Codec) (symbols : Nat) : Bool :=
  0 < codec.byteCount symbols && codec.symbolCount (codec.byteCount symbols) == symbols

/-- The values of the symbols that at most one group of bytes is written with. -/
def valuesOfBytes (codec : Codec) (bytes : List UInt8) : List Nat :=
  Digits.ofNat codec.order codec.bits codec.groupSymbols (codec.symbolCount bytes.length)
    (Digits.toNat codec.order 8 codec.groupBytes (bytes.map UInt8.toNat))

/-- The whole bytes carried by the values of at most one group of symbols; what is left of the
last symbol is dropped. -/
def bytesOfValues (codec : Codec) (values : List Nat) : List UInt8 :=
  (Digits.ofNat codec.order 8 codec.groupBytes (codec.byteCount values.length)
    (Digits.toNat codec.order codec.bits codec.groupSymbols values)).map UInt8.ofNat

/-- The number of values of a length. Lengths are 64-bit words: a count that does not fit is
reported, never wrapped. -/
def lengthLimit : Nat := UInt64.size

/-- The number of sizes of what is kept in one place, which are half of the lengths. -/
def sizeLimit : Nat := lengthLimit / 2

/-- A length, unless it does not fit. -/
def checked (n : Nat) : Option Nat :=
  if n < lengthLimit then some n else none

/-- The exact number of symbols that `bytes` bytes are written with. -/
def encodedLength? (codec : Codec) (bytes : Nat) (padding : Bool) : Option Nat := do
  let full ← checked (bytes / codec.groupBytes * codec.groupSymbols)
  let rest := bytes % codec.groupBytes
  let tail :=
    if rest = 0 then 0
    else if padding && codec.isPadded then codec.groupSymbols
    else codec.symbolCount rest
  checked (full + tail)

/-- A bound on the number of bytes that `symbols` symbols are read as. -/
def decodedLengthBound (codec : Codec) (symbols : Nat) : Nat :=
  min ((symbols + codec.groupSymbols - 1) / codec.groupSymbols * codec.groupBytes)
    (lengthLimit - 1)

end Codec

end BaseText
