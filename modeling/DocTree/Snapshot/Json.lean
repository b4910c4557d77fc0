import DocTree.Json.Pretty
import DocTree.Json.Reader
import DocTree.Snapshot.Basic

/-! Snapshots as JSON: an object with the members `node_type`, `label`, `attributes`
and `children`. Reading wants each of them once, takes an array of the four values as
well, skips members it does not know, and goes down 127 levels of arrays and objects. -/
namespace DocTree.Snapshot

mutual

def toJson : Snapshot → Json
  | .node type label attributes children =>
    .object
      [(some "node_type", .text type), (some "label", .text label),
        (some "attributes", .object (attributes.map fun (key, value) => (some key, .text value))),
        (some "children", .array (toJsonAll children))]
termination_by structural s => s

def toJsonAll : List Snapshot → List Json
  | [] => []
  | s :: rest => toJson s :: toJsonAll rest
termination_by structural ss => ss

end

def json (s : Snapshot) : String := s.toJson.pretty

def textOf? : Json → Option String
  | .string content => content
  | _ => none

def attributesOf? : Json → Option (List (String × String))
  | .object members =>
    members.foldlM (fun attributes (key, value) => do
      return putAttribute (← key) (← textOf? value) attributes) []
  | _ => none

def itemsOf? : Json → Option (List Json)
  | .array items => some items
  | _ => none

def fieldsOf? : Json → Option (Json × Json × Json × Json)
  | .array [type, label, attributes, children] => some (type, label, attributes, children)
  | .object members =>
    if members.all (·.1.isSome) then do
      return (← Json.member? "node_type" members, ← Json.member? "label" members,
        ← Json.member? "attributes" members, ← Json.member? "children" members)
    else none
  | _ => none

/-- A snapshot takes two levels, its own and that of its attributes and children. -/
def ofJsonWithin? : Nat → Json → Option Snapshot
  | levels + 2, j => do
    let (type, label, attributes, children) ← fieldsOf? j
    return .node (← textOf? type) (← textOf? label) (← attributesOf? attributes)
      (← (← itemsOf? children).mapM (ofJsonWithin? levels))
  | _, _ => none

def maxLevels : Nat := 127

def parse? (text : String) : Option Snapshot := (Json.parse? text).bind (ofJsonWithin? maxLevels)

def survives (s : Snapshot) : Bool :=
  match parse? s.json with
  | some read => beq read s
  | none => false

end DocTree.Snapshot
