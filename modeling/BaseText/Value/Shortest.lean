/-!
# The shortest decimal of a binary number

A finite binary number is the rational `mantissa * 2 ^ exponent`. Every rational between the
midpoints to its two neighbours reads back as the same number. Among the decimals in that interval
the shortest is the one on the coarsest grid `10 ^ p`, and of two on that grid the nearer.
-/

namespace BaseText

/-- The decimal `digits * 10 ^ exponent`. -/
structure Decimal where
  digits : Nat
  exponent : Int
deriving DecidableEq, Repr

namespace Decimal

/-- A positive binary number, four times as fine as its own grid: the number is
`(4 * mantissa) * 2 ^ exponent`, and `below` and `above` on the same scale are the midpoints to its
neighbours. The midpoints themselves read back as the number iff `isClosed`. -/
structure Interval where
  value : Nat
  below : Nat
  above : Nat
  exponent : Int
  isClosed : Bool
deriving Repr

/-- The interval around the number with the given bits of a 64-bit float, its sign aside. -/
def Interval.ofBits (bits : Nat) : Interval :=
  let fraction := bits % Nat.pow 2 52
  let field := bits / Nat.pow 2 52 % Nat.pow 2 11
  let mantissa : Nat := if field = 0 then fraction else fraction + Nat.pow 2 52
  { value := 4 * mantissa
    below := if fraction = 0 ∧ 1 < field then 4 * mantissa - 1 else 4 * mantissa - 2
    above := 4 * mantissa + 2
    exponent := ((max field 1 : Nat) : Int) - 1077
    isClosed := mantissa % 2 = 0 }

/-- `a * b ^ e` over a common denominator: the numerator and the denominator. -/
def scale (a b : Nat) (e : Int) : Nat × Nat :=
  if 0 ≤ e then (a * Nat.pow b e.toNat, 1) else (a, Nat.pow b (-e).toNat)

/-- The nearest multiple of `10 ^ p` in the interval, if there is one other than zero. Of two that
are equally near it is the even one. -/
def onGrid? (i : Interval) (p : Int) : Option Decimal :=
  let (unit, unitDen) := scale 1 10 p
  let (two, twoDen) := scale 1 2 i.exponent
  -- `x * 2 ^ exponent` and `c * 10 ^ p`, both times `unitDen * twoDen`
  let binary (x : Nat) : Nat := x * two * unitDen
  let decimal (c : Nat) : Nat := c * unit * twoDen
  let inside (c : Nat) : Bool :=
    c ≠ 0 && (binary i.below < decimal c && decimal c < binary i.above ||
      i.isClosed && (binary i.below = decimal c || decimal c = binary i.above))
  let low := binary i.value / decimal 1
  let toLow := binary i.value - decimal low
  let toHigh := decimal (low + 1) - binary i.value
  let lowFirst := toLow < toHigh || toLow = toHigh && low % 2 = 0
  let candidates := if lowFirst then [low, low + 1] else [low + 1, low]
  (candidates.find? inside).map fun c => ⟨c, p⟩

/-- The decimal on the coarsest of the grids from `10 ^ p` down, `fuel` of them. -/
def search (i : Interval) : Nat → Int → Decimal
  | 0, _ => ⟨0, 0⟩
  | fuel + 1, p => (onGrid? i p).getD (search i fuel (p - 1))

/-- The shortest decimal that reads back as the number with the given bits, its sign aside. Grids
from `10 ^ 309` to `10 ^ (-340)` reach every finite number. -/
def shortest (bits : Nat) : Decimal :=
  let i := Interval.ofBits bits
  if i.value = 0 then ⟨0, 0⟩ else search i 650 309

/-- All digits of a decimal written out, with a point and at least one digit on each side of it. -/
def positional (d : Decimal) : String :=
  if 0 ≤ d.exponent then toString (d.digits * Nat.pow 10 d.exponent.toNat) ++ ".0"
  else
    let places := (-d.exponent).toNat
    let whole := d.digits / Nat.pow 10 places
    let part := d.digits % Nat.pow 10 places
    toString whole ++ "." ++ String.ofList ((Nat.toDigits 10 part).leftpad places '0')

/-- How many digits stand before the point, or, as a negative number, how many zeros come between
the point and the first digit. -/
def point (d : Decimal) : Int := (Nat.toDigits 10 d.digits).length + d.exponent

/-- The first digit, the others after a point, and the power of ten with its sign. -/
def scientific (d : Decimal) : String :=
  let digits := Nat.toDigits 10 d.digits
  let rest := digits.drop 1
  let power := d.point - 1
  String.ofList (digits.take 1 ++ (if rest.isEmpty then [] else '.' :: rest)) ++ "e"
    ++ (if power < 0 then "-" else "+") ++ toString power.natAbs

/-- Where the point of a decimal may be for its digits to be written out. -/
structure Style where
  leastPoint : Int
  greatestPoint : Int

def render (style : Style) (d : Decimal) : String :=
  if style.leastPoint ≤ d.point ∧ d.point ≤ style.greatestPoint then d.positional
  else d.scientific

/-- The shortest decimal that reads back as a finite float, with the float's sign. -/
def renderFloat (style : Style) (x : Float) : String :=
  let bits := x.toBits.toNat
  (if bits / Nat.pow 2 63 % 2 = 1 then "-" else "") ++ (shortest bits).render style

end Decimal

end BaseText
