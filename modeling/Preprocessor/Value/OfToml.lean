/-
The values that TOML values stand for in expressions.
-/
import Preprocessor.Toml.Basic
import Preprocessor.Value.Basic

namespace Preprocessor

mutual

/-- The value that a TOML value stands for: dates are strings, and an array is the set of the
texts of its items.  A table stands for none. -/
def Value.ofToml : Toml → Option Value
  | .bool b => some (.bool b)
  | .int n => some (.int n)
  | .float x => some (.float x)
  | .str s => some (.str s)
  | .date s => some (.str s)
  | .array items => (Value.textsOfToml items).map fun texts => .set (.ofList texts)
  | .table _ => none

def Value.textsOfToml : List Toml → Option (List String)
  | [] => some []
  | item :: rest => do
    let v ← Value.ofToml item
    let texts ← Value.textsOfToml rest
    return v.text :: texts

end

end Preprocessor
