import BaseText.Codec
import BaseText.Text.Quoted

/-!
# Record notation

Values are shown to people as a name with the fields in braces, `Name { field: value }`. Log
lines use the same notation.
-/

namespace BaseText

def record (name : String) (fields : List (String × String)) : String :=
  name ++ " \x7b " ++ ", ".intercalate (fields.map fun (field, value) => field ++ ": " ++ value)
    ++ " \x7d"

def Alphabet.record {bits : Nat} (a : Alphabet bits) : String :=
  BaseText.record "Alphabet"
    [("bits", toString bits),
      ("symbols", Text.quote (String.ofList (a.symbols.toList.map Char.ofUInt8))),
      ("bit_order", a.order.label)]

/-- A codec's name, with its alphabet in parentheses. -/
def Codec.record : Codec → String
  | .base16 => "Base16"
  | .base32 a => "Base32(" ++ a.record ++ ")"
  | .base64 a => "Base64(" ++ a.record ++ ")"

def CodingError.record (e : CodingError) : String :=
  BaseText.record "CodecError" [("code", e.cause.label), ("offset", toString e.offset)]

end BaseText
