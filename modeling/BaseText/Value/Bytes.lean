import BaseText.WholeInput
import BaseText.Value

/-!
# Bytes as values

Bytes are stored as a text in one of four forms.
-/

namespace BaseText

/-- A form in which bytes are stored: how they are written, how they are read, and what a reader
expects to find. -/
structure ByteForm where
  encoding : Encoding
  decoding : Decoding
  expected : String

namespace ByteForm

def strict (codec : Codec) (expected : String) : ByteForm := ⟨{ codec }, { codec }, expected⟩

def base16 : ByteForm := strict .base16 "a hexadecimal string"

def base32 : ByteForm := strict (.base32 .base32) "a Base32 string"

def base64 : ByteForm := strict (.base64 .base64) "a Base64 string"

/-- Base64 that is safe in URLs, written without padding and read with or without it. -/
def base64Url : ByteForm where
  encoding := { codec := .base64 .base64Url, options := .unpadded }
  decoding := { codec := .base64 .base64Url, options := .lenient }
  expected := "a Base64 string"

def write (form : ByteForm) (bytes : List UInt8) : Except Mismatch Value :=
  (form.encoding.encode bytes).mapError .malformed |>.map .text

def read (form : ByteForm) : Value → Except Mismatch (List UInt8)
  | .text s => (form.decoding.decode s).mapError .malformed
  | v => throw (.wrongType v form.expected)

end ByteForm

end BaseText
