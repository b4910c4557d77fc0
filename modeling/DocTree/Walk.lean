import DocTree.Node.Block

/-! Walking a tree in document order, entering a node before its children and leaving
it after them. -/
namespace DocTree

inductive Event where
  | enter (kind : Kind) (depth : Nat)
  | leave (kind : Kind) (depth : Nat)
  deriving DecidableEq, Repr

namespace Comment

def eventsAt : Comment → Nat → List Event :=
  fold fun c below depth =>
    .enter c.kind depth :: below.flatMap (fun events => events (depth + 1)) ++
      [.leave c.kind depth]

def events (c : Comment) : List Event := c.eventsAt 0

theorem eventsAt_eq (c : Comment) (depth : Nat) :
    c.eventsAt depth = .enter c.kind depth ::
      c.children.flatMap (fun d => d.eventsAt (depth + 1)) ++ [.leave c.kind depth] := by
  simp only [eventsAt]
  rw [fold_eq]
  simp [List.flatMap_map]

def paramNamesAt : Comment → Nat → Run (List (Nat × String)) :=
  fold fun c below depth => do
    let own ← match c with
      | .command (.param _) base => do
        let arg ← base.nameArg
        pure [(depth, arg.text)]
      | _ => pure []
    let rest ← below.mapM fun names => names (depth + 1)
    return own ++ rest.flatten

def paramNames (c : Comment) : Run (List (Nat × String)) := c.paramNamesAt 0

end Comment
end DocTree
