import DocTree.Command.Table

/-! Runs of look-ups and registrations on one table. -/
namespace DocTree.CommandTable

inductive Action where
  | byId (id : UInt16)
  | byName (name : String)
  | block (name : String)
  | unknown (name : String)
  | fill (stem : String) (count : Nat)
  | copy
  | list (skip take : Nat)
  deriving DecidableEq, Repr

inductive Answer where
  | done
  | info (found : Option CommandInfo)
  | id (id : UInt16)
  | lastId (id : Option UInt16)
  | infos (found : List CommandInfo)
  | full (problem : TableFull)
  deriving DecidableEq, Repr

def numbered (stem : String) (first count : Nat) : List String :=
  (List.range' first count).map fun i => s!"{stem}{i}"

def fill : List String → Option UInt16 → CommandTable → Answer × CommandTable
  | [], last, t => (.lastId last, t)
  | name :: rest, _, t =>
    match t.registerUnknown name with
    | (.ok id, next) => fill rest (some id) next
    | (.error problem, next) => (.full problem, next)

def Answer.ofId : Except TableFull UInt16 → Answer
  | .ok registered => .id registered
  | .error problem => .full problem

def act (action : Action) (t : CommandTable) : Answer × CommandTable :=
  match action with
  | .byId id => (.info (t.info? id), t)
  | .byName name => (.info (t.infoByName? name), t)
  | .block name =>
    let (result, next) := t.registerBlock name
    (.ofId result, next)
  | .unknown name =>
    let (result, next) := t.registerUnknown name
    (.ofId result, next)
  | .fill stem count => fill (numbered stem 0 count) none t
  | .copy => (.done, t)
  | .list skip take => (.infos ((t.infos.toList.drop skip).take take), t)

def run (t : CommandTable) : List Action → List (Answer × Nat)
  | [] => []
  | action :: rest =>
    let (answer, next) := t.act action
    (answer, next.size) :: run next rest

end DocTree.CommandTable
