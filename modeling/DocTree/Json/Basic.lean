/-! JSON values. Object members keep their order and their repetitions, numbers their
spelling. -/
namespace DocTree

/-- The content of a string; `none` if an escape in it stands for half a character
only. Such a string is well formed, but it has no content. -/
abbrev JsonText := Option String

inductive Json where
  | null
  | bool (value : Bool)
  | number (spelling : String)
  | string (content : JsonText)
  | array (items : List Json)
  | object (members : List (JsonText × Json))
  deriving Repr

namespace Json

def text (s : String) : Json := .string (some s)

def member? (key : String) (members : List (JsonText × Json)) : Option Json :=
  match members.filter (·.1 == some key) with
  | [(_, value)] => some value
  | _ => none

end Json
end DocTree
