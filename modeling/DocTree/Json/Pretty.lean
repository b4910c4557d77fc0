import DocTree.Json.Text

/-! Printing JSON with two spaces of indentation per level: every member and every item
on a line of its own, empty arrays and objects on the line they start on. -/
namespace DocTree.Json

def newline (level : Nat) : List Char := '\n' :: List.replicate (2 * level) ' '

mutual

def prettyAt (level : Nat) : Json → List Char
  | .null => "null".toList
  | .bool true => "true".toList
  | .bool false => "false".toList
  | .number spelling => spelling.toList
  | .string content => writeText content
  | .array [] => ['[', ']']
  | .array (item :: rest) =>
    '[' :: newline (level + 1) ++ prettyAt (level + 1) item ++ prettyItems (level + 1) rest ++
      newline level ++ [']']
  | .object [] => ['\x7b', '\x7d']
  | .object ((key, value) :: rest) =>
    '\x7b' :: newline (level + 1) ++ writeText key ++ ':' :: ' ' :: prettyAt (level + 1) value ++
      prettyMembers (level + 1) rest ++ newline level ++ ['\x7d']
termination_by structural j => j

def prettyItems (level : Nat) : List Json → List Char
  | [] => []
  | item :: rest => ',' :: newline level ++ prettyAt level item ++ prettyItems level rest
termination_by structural items => items

def prettyMembers (level : Nat) : List (JsonText × Json) → List Char
  | [] => []
  | (key, value) :: rest =>
    ',' :: newline level ++ writeText key ++ ':' :: ' ' :: prettyAt level value ++
      prettyMembers level rest
termination_by structural members => members

end

def pretty (j : Json) : String := String.ofList (prettyAt 0 j)

end DocTree.Json
