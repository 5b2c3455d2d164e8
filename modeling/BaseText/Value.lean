import BaseText.CodingError
import BaseText.Text.Quoted
import BaseText.Value.Shortest

/-!
# Values

The values of a self-describing data format, as far as options and bytes are stored in them, and
the ways in which a value can be the wrong one.
-/

namespace BaseText

/-- A number: an integer that fits 64 bits, or a 64-bit float. -/
inductive Number where
  | integer (n : Int)
  | float (x : Float)

/-- A number as it is written: the digits before and after the point, and the power of ten behind
them. -/
structure NumberText where
  isNegative : Bool
  whole : List Nat
  part : Option (List Nat)
  exponent : Option Int

namespace NumberText

/-- Appends digits to a number as long as it fits 64 bits, and counts those left over. -/
def absorb (n : Nat) : List Nat → Nat × Nat
  | [] => (n, 0)
  | d :: rest => if n * 10 + d < UInt64.size then absorb (n * 10 + d) rest else (n, rest.length + 1)

/-- The float nearest to a power of ten. -/
def power (e : Nat) : Float := Float.ofScientific 1 false e

/-- A float times a power of ten, rounded once for each factor up to `10 ^ 308`. -/
def scaled (x : Float) (e : Int) : Float :=
  if x == 0 then x
  else if 0 ≤ e then x * power e.toNat
  else if e < -308 then scaled (x / power 308) (e + 308)
  else x / power (-e).toNat
termination_by (-e).toNat

/-- The float of a number: its leading digits as a float, scaled by a float power of ten. Every step
rounds, so that the result can differ from the nearest float in its last digit. -/
def toFloat (t : NumberText) : Float :=
  let part := t.part.getD []
  let (n, left) := absorb 0 t.whole
  let (n, partLeft) := absorb n part
  let exponent : Int := t.exponent.getD 0 + left + partLeft - part.length
  let x := scaled (UInt64.ofNat n).toFloat exponent
  if t.isNegative then -x else x

/-- A number without point and power is an integer if it fits an unsigned or, with a sign, a signed
word of 64 bits. Zero with a sign is a float, since no integer is a negative zero. -/
def toNumber (t : NumberText) : Number :=
  let n : Nat := t.whole.foldl (fun n d => n * 10 + d) 0
  if t.part.isSome || t.exponent.isSome then .float t.toFloat
  else if !t.isNegative && n < UInt64.size then .integer n
  else if t.isNegative && 0 < n && n ≤ Nat.pow 2 63 then .integer (-(n : Int))
  else .float t.toFloat

end NumberText

inductive Value where
  | null
  | bool (b : Bool)
  | number (n : Number)
  | text (s : String)
  | list (items : List Value)
  | object (fields : List (String × Value))

namespace Value

/-- Floats from `10 ^ (-5)` up to below `10 ^ 16` are written out, others with a power of ten. -/
def floatStyle : Decimal.Style := ⟨-4, 16⟩

/-- What a value is, for an error that expected another one. -/
def describe : Value → String
  | null => "null"
  | bool b => s!"boolean `{b}`"
  | number (.integer n) => s!"integer `{n}`"
  | number (.float x) => s!"floating point `{Decimal.renderFloat floatStyle x}`"
  | text s => s!"string {Text.quote s}"
  | list _ => "sequence"
  | object _ => "map"

/-- The field of a name. Of two fields with one name the later one counts. -/
def field? (fields : List (String × Value)) (name : String) : Option Value :=
  (fields.reverse.find? fun entry => entry.1 == name).map (·.2)

end Value

/-- Why a value cannot be read. -/
inductive Mismatch where
  | wrongType (found : Value) (expected : String)
  /-- A list has more items than there are fields. -/
  | tooLong (length : Nat)
  | malformed (error : CodingError)

def Mismatch.message : Mismatch → String
  | wrongType found expected => s!"invalid type: {found.describe}, expected {expected}"
  | tooLong length => s!"invalid length {length}, expected fewer elements in array"
  | malformed e => e.message

end BaseText
