import DocTree.Text.Quoted

/-! Snapshots: a tree of node types, labels and attributes, and its outline, one line
per node. Attributes are kept in the order of their keys, one value per key. -/
namespace DocTree

inductive Snapshot where
  | node (type label : String) (attributes : List (String × String)) (children : List Snapshot)
  deriving Repr

def putAttribute (key value : String) : List (String × String) → List (String × String)
  | [] => [(key, value)]
  | (k, v) :: rest =>
    if key < k then (key, value) :: (k, v) :: rest
    else if key = k then (key, value) :: rest
    else (k, v) :: putAttribute key value rest

namespace Snapshot

def type : Snapshot → String
  | .node type _ _ _ => type

def label : Snapshot → String
  | .node _ label _ _ => label

def attributes : Snapshot → List (String × String)
  | .node _ _ attributes _ => attributes

def children : Snapshot → List Snapshot
  | .node _ _ _ children => children

def leaf (type label : String) : Snapshot := .node type label [] []

def withAttribute (key value : String) : Snapshot → Snapshot
  | .node type label attributes children =>
    .node type label (putAttribute key value attributes) children

def withAttributes (entries : List (String × String)) (s : Snapshot) : Snapshot :=
  entries.foldl (fun s (key, value) => s.withAttribute key value) s

def withChildren (more : List Snapshot) : Snapshot → Snapshot
  | .node type label attributes children => .node type label attributes (children ++ more)

mutual

def beq : Snapshot → Snapshot → Bool
  | .node type label attributes children, .node type' label' attributes' children' =>
    type == type' && label == label' && attributes == attributes' && beqAll children children'
termination_by structural s => s

def beqAll : List Snapshot → List Snapshot → Bool
  | [], [] => true
  | s :: rest, s' :: rest' => beq s s' && beqAll rest rest'
  | _, _ => false
termination_by structural ss => ss

end

def headline (type label : String) (attributes : List (String × String)) : String :=
  let shown := attributes.map fun (key, value) => key ++ "=" ++ value
  let tail := if attributes.isEmpty then "" else " \x7b" ++ String.intercalate ", " shown ++ "\x7d"
  type ++ " " ++ Quoted.quote label ++ tail

mutual

def outlineAt (depth : Nat) : Snapshot → String
  | .node type label attributes children =>
    String.join (List.replicate depth "  ") ++ headline type label attributes ++ "\n" ++
      outlineAll (depth + 1) children
termination_by structural s => s

def outlineAll (depth : Nat) : List Snapshot → String
  | [] => ""
  | s :: rest => outlineAt depth s ++ outlineAll depth rest
termination_by structural ss => ss

end

def outline (s : Snapshot) : String := s.outlineAt 0

end Snapshot
end DocTree
