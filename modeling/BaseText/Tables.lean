import BaseText.Alphabet

/-!
# Alphabets in two tables

An alphabet is kept as a table of symbols and, for the way back, a table of the values of all ASCII
codes. One pass over the symbols fills both tables and checks each symbol: one that has a value
already is taken.
-/

namespace BaseText

/-- The symbols in the order of their values, and the values in the order of the codes. -/
structure Tables where
  symbols : Vector UInt8 64
  values : Vector UInt8 128
  order : BitOrder
deriving DecidableEq

namespace Tables

/-- The value of a code that is no symbol. -/
def noValue : UInt8 := 0xff

def empty (order : BitOrder) : Tables := ⟨.replicate 64 0, .replicate 128 noValue, order⟩

def isTaken (t : Tables) (b : UInt8) : Bool := t.values[b.toNat]?.any (· != noValue)

def enter (t : Tables) (v : Nat) (b : UInt8) : Tables :=
  { t with
    symbols := t.symbols.setIfInBounds v b
    values := t.values.setIfInBounds b.toNat (UInt8.ofNat v) }

/-- Enters symbols for the values from `v` on, whatever they are. -/
def enterAll (t : Tables) (v : Nat) : List UInt8 → Tables
  | [] => t
  | b :: rest => (t.enter v b).enterAll (v + 1) rest

/-- Enters symbols for the values from `v` on, up to the first one that is none or is taken. -/
def fill (t : Tables) (v : Nat) : List UInt8 → Except CodingError Tables
  | [] => .ok t
  | b :: rest =>
    if !isSymbol b || t.isTaken b then .error ⟨.invalidAlphabet, v⟩
    else (t.enter v b).fill (v + 1) rest

def ofSymbols (bits : Nat) (symbols : List UInt8) (order : BitOrder) : Except CodingError Tables :=
  if bits ≠ 5 ∧ bits ≠ 6 then .error ⟨.invalidAlphabet, 0⟩
  else if symbols.length ≠ Nat.pow 2 bits then
    .error ⟨.invalidAlphabet, min symbols.length (Nat.pow 2 bits)⟩
  else (empty order).fill 0 symbols

def withOrder (t : Tables) (order : BitOrder) : Tables := { t with order := order }

/-- The symbol of a value; bits above `bits` are ignored. -/
def symbol (t : Tables) (bits value : Nat) : Char :=
  Char.ofUInt8 (t.symbols[value &&& (Nat.pow 2 bits - 1)]?.getD 0)

def value? (t : Tables) (c : Char) : Option Nat :=
  (t.values[c.toNat]?.filter (· != noValue)).map UInt8.toNat

end Tables

/-- The tables of an alphabet, which needs no checking any more. -/
def Alphabet.tables {bits : Nat} (a : Alphabet bits) : Tables :=
  (Tables.empty a.order).enterAll 0 a.symbols.toList

end BaseText
