/-
JSON values (`struct json` of `lib/json.h`) and their text as `json_to_string` writes it without flags.
-/
import LinkerOvs.Lib.Decimal
import LinkerOvs.Json.Number

namespace LinkerOvs.Json

/-- `struct json`. The members of an object stand in the order in which its hash table is gone through. -/
inductive Value (δ : Type)
  | null
  | false
  | true
  | integer (i : Int)
  | real (x : δ)
  | string (s : List UInt8)
  | array (elems : List (Value δ))
  | object (members : List (List UInt8 × Value δ))

end LinkerOvs.Json
