import BaseText.CodingError
import BaseText.Digits

/-!
# Alphabets

An alphabet writes each value of `bits` bits as one printable ASCII symbol. A value of
`Alphabet bits` is a valid table by construction: `ofSymbols` refuses every other one and names
the first offending entry.
-/

namespace BaseText

/-- The symbol that fills up a short final group. -/
def pad : Char := '='

/-- The bytes an alphabet may use: visible ASCII other than the padding symbol. -/
def isSymbol (b : UInt8) : Bool :=
  0x21 ≤ b && b ≤ 0x7e && Char.ofUInt8 b != pad

/-- A table of `2 ^ bits` distinct symbols, and the order in which bits enter them. -/
structure Alphabet (bits : Nat) where
  symbols : Vector UInt8 (Nat.pow 2 bits)
  order : BitOrder
  width : bits = 5 ∨ bits = 6
  visible : ∀ b ∈ symbols.toList, isSymbol b
  distinct : symbols.toList.Nodup
deriving DecidableEq

namespace Alphabet

variable {bits : Nat}

/-- The index of the first entry that is no symbol, or stands among `seen` or earlier in the
table. -/
def firstFault? (seen : List UInt8) : List UInt8 → Option Nat
  | [] => none
  | b :: rest =>
    if isSymbol b && !seen.contains b then (firstFault? (b :: seen) rest).map (· + 1) else some 0

theorem firstFault?_eq_none_iff (seen symbols : List UInt8) :
    firstFault? seen symbols = none ↔
      (∀ b ∈ symbols, isSymbol b) ∧ symbols.Nodup ∧ ∀ b ∈ symbols, b ∉ seen := by
  induction symbols generalizing seen with
  | nil => simp [firstFault?]
  | cons b rest ih =>
    by_cases h : isSymbol b && !seen.contains b
    · simp only [firstFault?, h, if_true, Option.map_eq_none_iff, ih]
      simp only [Bool.and_eq_true, Bool.not_eq_true', List.contains_eq_mem,
        decide_eq_false_iff_not] at h
      grind
    · simp only [firstFault?, h]
      simp only [Bool.and_eq_true, Bool.not_eq_true', List.contains_eq_mem,
        decide_eq_false_iff_not] at h
      grind

/-- Builds an alphabet from the bytes that stand for the values 0, 1, 2 and so on. -/
def ofSymbols (bits : Nat) (symbols : List UInt8) (order : BitOrder) :
    Except CodingError (Alphabet bits) :=
  if width : bits = 5 ∨ bits = 6 then
    if size : symbols.length = Nat.pow 2 bits then
      match fault : firstFault? [] symbols with
      | some i => .error ⟨.invalidAlphabet, i⟩
      | none =>
        have valid := (firstFault?_eq_none_iff [] symbols).1 fault
        .ok ⟨⟨symbols.toArray, size⟩, order, width, valid.1, valid.2.1⟩
    else .error ⟨.invalidAlphabet, min symbols.length (Nat.pow 2 bits)⟩
  else .error ⟨.invalidAlphabet, 0⟩

def withOrder (a : Alphabet bits) (order : BitOrder) : Alphabet bits :=
  { a with order := order }

/-- The symbol of a value; bits above `bits` are ignored. -/
def symbol (a : Alphabet bits) (value : Nat) : Char :=
  Char.ofUInt8 (a.symbols.get ⟨value % Nat.pow 2 bits, Nat.mod_lt _ (Nat.two_pow_pos bits)⟩)

/-- The value a symbol stands for, if the table has it. -/
def value? (a : Alphabet bits) (c : Char) : Option Nat :=
  a.symbols.toList.findIdx? (Char.ofUInt8 · == c)

def run (first last : Char) : List UInt8 :=
  (List.range' first.toNat (last.toNat + 1 - first.toNat)).map UInt8.ofNat

/-- The table of RFC 4648 Base64: `A-Z a-z 0-9 + /`. -/
def base64 : Alphabet 6 where
  symbols := ⟨(run 'A' 'Z' ++ run 'a' 'z' ++ run '0' '9' ++ run '+' '+' ++ run '/' '/').toArray,
    by decide⟩
  order := .bigEndian
  width := by decide
  visible := by decide +kernel
  distinct := by decide +kernel

/-- The table of RFC 4648 Base64 that is safe in URLs and file names: `A-Z a-z 0-9 - _`. -/
def base64Url : Alphabet 6 where
  symbols := ⟨(run 'A' 'Z' ++ run 'a' 'z' ++ run '0' '9' ++ run '-' '-' ++ run '_' '_').toArray,
    by decide⟩
  order := .bigEndian
  width := by decide
  visible := by decide +kernel
  distinct := by decide +kernel

/-- The table of RFC 4648 Base32: `A-Z 2-7`. -/
def base32 : Alphabet 5 where
  symbols := ⟨(run 'A' 'Z' ++ run '2' '7').toArray, by decide⟩
  order := .bigEndian
  width := by decide
  visible := by decide +kernel
  distinct := by decide +kernel

/-- The table of RFC 4648 Base32 whose symbols sort like their values: `0-9 A-V`. -/
def base32Hex : Alphabet 5 where
  symbols := ⟨(run '0' '9' ++ run 'A' 'V').toArray, by decide⟩
  order := .bigEndian
  width := by decide
  visible := by decide +kernel
  distinct := by decide +kernel

end Alphabet

end BaseText
