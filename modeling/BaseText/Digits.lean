/-!
# Groups as numbers

A group of bytes and the group of symbols it becomes are the digits of one and the same number,
once in base `2 ^ 8` and once in base `2 ^ w`. The bit order says at which end of the number the
first digit stands. A short group is filled up with zero digits.
-/

namespace BaseText

/-- Which end of each byte feeds the first symbol. -/
inductive BitOrder where
  /-- The most significant bit of the first byte starts the first symbol. -/
  | bigEndian
  /-- The least significant bit of the first byte starts the first symbol. -/
  | littleEndian
deriving DecidableEq, Repr

namespace BitOrder

def label : BitOrder → String
  | bigEndian => "BigEndian"
  | littleEndian => "LittleEndian"

/-- How far the `i`-th of `count` digits of `width` bits stands above the lowest bit. -/
def shift (order : BitOrder) (width count i : Nat) : Nat :=
  match order with
  | bigEndian => width * count - width * (i + 1)
  | littleEndian => width * i

end BitOrder

namespace Digits

/-- The number of `count` digits that starts with the given ones and goes on with zeros. -/
def toNat (order : BitOrder) (width count : Nat) (digits : List Nat) : Nat :=
  digits.zipIdx.foldl (fun n (digit, i) => n ||| digit <<< order.shift width count i) 0

/-- The first `wanted` of the `count` digits of a number. -/
def ofNat (order : BitOrder) (width count wanted n : Nat) : List Nat :=
  (List.range wanted).map fun i => (n >>> order.shift width count i) % Nat.pow 2 width

end Digits

end BaseText
