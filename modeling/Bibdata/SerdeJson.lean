import Bibdata.Library.Json

/-!
# Writing and reading JSON
-/

namespace Bibdata

/-- The recursion limit of `serde_json` is 128, which a value may not reach. -/
def maxDepth : ℕ := 127

/-- `serde_json`: what it writes it reads back, if no object has a key twice, the integers have 64
bits, and it is not nested too deep; and it reads only texts of one value. -/
structure SerdeJson where
  toString : Json → String
  fromStr : String → Option Json
  fromStr_toString : ∀ v : Json, v.Readable maxDepth → fromStr (toString v) = some v
  fromStr_trailing : ∀ (v : Json) (c : Char) (cs : List Char), v.Readable maxDepth →
    c.isDigit = false → Json.isWhitespace c = false →
    fromStr (toString v ++ String.ofList (c :: cs)) = none
  fromStr_empty : fromStr "" = none

def SerdeJson.compact : SerdeJson where
  toString := Json.toText
  fromStr := Json.parse
  fromStr_toString v _ := Json.parse_toText v
  fromStr_trailing _ _ cs _ hdigit hspace := Json.parse_toText_append cs hdigit hspace
  fromStr_empty := Json.parse_empty

end Bibdata
