import Mathlib.Data.List.Basic

/-!
# JSON values as the two languages read them

`get` and `asStr` are Rust's, which answer `none` for a value of another shape. `index` and `each`
are Ruby's, which raise: there `none` stands for that.
-/

namespace Bibdata

/-- `serde_json::Value`, or what `JSON.parse` gives, with numbers of any kind. -/
inductive JsonValue (N : Type)
  | null
  | bool (b : Bool)
  | number (n : N)
  | string (s : String)
  | array (elements : List (JsonValue N))
  | object (members : List (String × JsonValue N))

variable {N : Type}

namespace JsonValue

def asStr : JsonValue N → Option String
  | string s => some s
  | _ => none

/-- `as_object`, and what it has for the key. -/
def get (json : JsonValue N) (key : String) : Option (JsonValue N) :=
  match json with
  | object members => (members.find? (·.1 = key)).map Prod.snd
  | _ => none

/-- `[]`, which on a string looks for the key in it. -/
def index (json : JsonValue N) (key : String) : Option (JsonValue N) :=
  match json with
  | object _ => some ((json.get key).getD null)
  | string s => some (if s.toList.tails.any key.toList.isPrefixOf then string key else null)
  | _ => none

/-- A hash gives its pairs. -/
def each : JsonValue N → Option (List (JsonValue N))
  | array elements => some elements
  | object members => some (members.map fun (key, value) => array [string key, value])
  | _ => none

def truthy : JsonValue N → Bool
  | null => false
  | bool b => b
  | _ => true

end JsonValue

end Bibdata
