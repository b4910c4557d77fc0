import DocTree.Span

/-! Lines of a source text. The first line starts at byte zero, every other one right
after a newline. -/
namespace DocTree

structure Position where
  line : Nat
  column : Nat
  deriving DecidableEq, Repr

def Position.display (p : Position) : String := s!"{p.line}:{p.column}"

instance : Ord Position := ⟨compareLex (compareOn Position.line) (compareOn Position.column)⟩

structure LineTable where
  later : List Nat
  deriving DecidableEq, Repr

namespace LineTable

def startsFrom (byte : Nat) : List Char → List Nat
  | [] => []
  | c :: rest =>
    let next := byte + c.utf8Size
    if c = '\n' then next :: startsFrom next rest else startsFrom next rest

def ofSource (source : String) : LineTable := ⟨startsFrom 0 source.toList⟩

def lineCount (t : LineTable) : Nat := t.later.length + 1

def positionOf (t : LineTable) (byte : Nat) : Position :=
  let reached := t.later.takeWhile (· ≤ byte)
  ⟨reached.length, byte - reached.getLastD 0⟩

def position? (t : LineTable) (loc : Location) : Option Position :=
  loc.offset?.map fun offset => t.positionOf offset.toNat

end LineTable
end DocTree
