import DocTree.Text.Quoted

/-! Records as text on one line: fields between braces, entries between brackets, and
values that may be missing. -/
namespace DocTree.Record

def render (name : String) (fields : List (String × String)) : String :=
  name ++ " \x7b " ++ String.intercalate ", " (fields.map fun (key, value) => key ++ ": " ++ value) ++
    " \x7d"

def entries (values : List String) : String := "[" ++ String.intercalate ", " values ++ "]"

def optional : Option String → String
  | none => "None"
  | some value => "Some(" ++ value ++ ")"

def truth (value : Bool) : String := if value then "true" else "false"

def optionalText (text : Option String) : String := optional (text.map Quoted.quote)

end DocTree.Record
