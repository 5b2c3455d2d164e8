import BaseText.Text.Unseen

/-!
# Quoted text

Text between double quotes, written so that it can be told apart and read by eye: a backslash
before a quote or a backslash, letters for the common control characters, and the code in
hexadecimal for every other character that would not be seen.
-/

namespace BaseText

namespace Text

/-- One character between quotes. -/
def escape (c : Char) : List Char :=
  match c with
  | '"' => ['\\', '"']
  | '\\' => ['\\', '\\']
  | '\t' => ['\\', 't']
  | '\r' => ['\\', 'r']
  | '\n' => ['\\', 'n']
  | '\x00' => ['\\', '0']
  | _ =>
    if isUnseen c then ['\\', 'u', '\x7b'] ++ Nat.toDigits 16 c.toNat ++ ['\x7d'] else [c]

/-- A text between quotes. -/
def quote (s : String) : String :=
  String.ofList ('"' :: s.toList.flatMap escape ++ ['"'])

end Text

end BaseText
