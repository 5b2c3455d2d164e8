import BaseText.Decoding
import BaseText.Encoding
import BaseText.Value

/-!
# Options as values

Options are stored as an object with a field for each option, or as a list of the options in
order. Whatever is missing has its default, and fields of other names mean nothing.
-/

namespace BaseText

namespace Value

def toBool : Value → Except Mismatch Bool
  | bool b => pure b
  | v => throw (.wrongType v "a boolean")

/-- Reads the truth values stored under some names, or at their places in a list. All that are
there are checked in the order of the names, and only then the length of a list. -/
def toFlags (names : List String) (type : String) : Value → Except Mismatch (List (Option Bool))
  | object fields =>
    names.mapM fun name =>
      match field? fields name with
      | some v => some <$> v.toBool
      | none => pure none
  | list items => do
    let flags ← (items.take names.length).mapM toBool
    if names.length < items.length then throw (.tooLong items.length)
    pure (flags.map some)
  | v => throw (.wrongType v s!"struct {type}")

def flagOr (flags : List (Option Bool)) (place : Nat) (default : Bool) : Bool :=
  (flags[place]?.getD none).getD default

/-- An object of truth values, written without blanks. -/
def renderFlags (flags : List (String × Bool)) : String :=
  "\x7b" ++ ",".intercalate (flags.map fun (name, b) => s!"\"{name}\":{b}") ++ "\x7d"

end Value

namespace EncodeOptions

def fieldNames : List String := ["addPadding", "toUpperCase"]

def ofValue (v : Value) : Except Mismatch EncodeOptions := do
  let flags ← v.toFlags fieldNames "EncodeOptions"
  let default : EncodeOptions := {}
  pure
    { addPadding := Value.flagOr flags 0 default.addPadding
      toUpperCase := Value.flagOr flags 1 default.toUpperCase }

def render (options : EncodeOptions) : String :=
  Value.renderFlags (fieldNames.zip [options.addPadding, options.toUpperCase])

end EncodeOptions

namespace DecodeOptions

def fieldNames : List String := ["requirePadding"]

def ofValue (v : Value) : Except Mismatch DecodeOptions := do
  let flags ← v.toFlags fieldNames "DecodeOptions"
  let default : DecodeOptions := {}
  pure { requirePadding := Value.flagOr flags 0 default.requirePadding }

def render (options : DecodeOptions) : String :=
  Value.renderFlags (fieldNames.zip [options.requirePadding])

end DecodeOptions

end BaseText
