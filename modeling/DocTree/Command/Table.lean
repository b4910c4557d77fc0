import DocTree.Command.Builtin
import Std.Data.HashMap

/-! The command table. Commands are numbered in the order in which they came in, and
found by number or by name. A known name keeps its command; a new one is appended as
long as its number fits into 16 bits. -/
namespace DocTree

structure CommandTable where
  infos : Array CommandInfo
  ids : Std.HashMap String UInt16

structure TableFull where
  name : String
  capacity : Nat
  deriving DecidableEq, Repr

def TableFull.message (e : TableFull) : String :=
  s!"cannot register '{e.name}': command table is full ({e.capacity} commands)"

namespace CommandTable

def capacity : Nat := 65536

def empty : CommandTable := ⟨#[], ∅⟩

def size (t : CommandTable) : Nat := t.infos.size

def info? (t : CommandTable) (id : UInt16) : Option CommandInfo := t.infos[id.toNat]?

def infoByName? (t : CommandTable) (name : String) : Option CommandInfo :=
  t.ids[name]?.bind t.info?

def name? (t : CommandTable) (id : UInt16) : Option String := (t.info? id).map (·.name)

def nextId (t : CommandTable) : UInt16 := UInt16.ofNat t.infos.size

def append (t : CommandTable) (name : String) (info : CommandInfo) : CommandTable :=
  ⟨t.infos.push info, t.ids.insert name t.nextId⟩

def builtin : CommandTable :=
  Builtin.entries.foldl (fun t e => t.append e.name (e.info t.nextId)) empty

def register (t : CommandTable) (configure : CommandInfo → CommandInfo) (name : String) :
    Except TableFull UInt16 × CommandTable :=
  match t.ids[name]? with
  | some id => (.ok id, t)
  | none =>
    if t.infos.size < capacity then
      (.ok t.nextId, t.append name (configure { id := t.nextId, name }))
    else (.error ⟨name, capacity⟩, t)

def registerBlock (t : CommandTable) (name : String) : Except TableFull UInt16 × CommandTable :=
  t.register .asBlock name

def registerUnknown (t : CommandTable) (name : String) :
    Except TableFull UInt16 × CommandTable :=
  t.register .asUnknown name

def registerBlocks : List String → CommandTable → Except TableFull CommandTable
  | [], t => .ok t
  | name :: rest, t =>
    match t.registerBlock name with
    | (.ok _, next) => registerBlocks rest next
    | (.error problem, _) => .error problem

def withNames (blocks unknowns : List String) : CommandTable :=
  let t := blocks.foldl (fun t name => (t.registerBlock name).2) builtin
  unknowns.foldl (fun t name => (t.registerUnknown name).2) t

end CommandTable
end DocTree
