import FilePipeline.Text.Quoted

/-! # Inspecting values

The written form of structured values in logs: a name with named fields between braces, or with
plain fields between parentheses. -/

namespace FilePipeline.Text

/-- A value with named fields. -/
def record (name : String) (fields : List (String × String)) : String :=
  name ++ " \x7b " ++ String.intercalate ", " (fields.map fun f => f.1 ++ ": " ++ f.2) ++ " \x7d"

/-- A value with one unnamed field. -/
def wrapped (name : String) (content : String) : String := name ++ "(" ++ content ++ ")"

/-- A truth value in lower case. -/
def truth (b : Bool) : String := if b then "true" else "false"

end FilePipeline.Text
