/-!
# Sample data

Bytes that look random and are the same on every run: the low bytes of a sequence of 64-bit
states, each made from the one before it by three shifts.
-/

namespace BaseText

namespace Sample

/-- The state after `state`. Bits shifted out of the word are lost. -/
def advance (state : UInt64) : UInt64 :=
  let a := state ^^^ (state <<< 13)
  let b := a ^^^ (a >>> 7)
  b ^^^ (b <<< 17)

/-- The state a seed starts with. It is never zero, since zero is its own successor. -/
def start (seed : UInt64) : UInt64 := if seed = 0 then 1 else seed

/-- The low bytes of the next `n` states. -/
def bytesFrom (state : UInt64) : Nat → List UInt8
  | 0 => []
  | n + 1 => (advance state).toUInt8 :: bytesFrom (advance state) n

def bytes (seed : UInt64) (n : Nat) : List UInt8 := bytesFrom (start seed) n

end Sample

end BaseText
