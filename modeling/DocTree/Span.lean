/-! Byte offsets into a comment's source, and spans of them. A location may be
invalid; the invalid location comes before every offset and stays where it is when
it is moved. -/
namespace DocTree

inductive Location where
  | invalid
  | valid (offset : UInt32)
  deriving DecidableEq, Repr

def clampOffset (n : Int) : UInt32 := UInt32.ofNat (min n.toNat 4294967295)

def clampDistance (n : Int) : Int := max (-2147483648) (min n 2147483647)

/-- The byte length of a text as a signed 32-bit distance: from 2147483648 bytes on it
wraps around. -/
def byteDistance (text : String) : Int := Int.bmod text.utf8ByteSize 4294967296

namespace Location

def isValid : Location → Bool
  | .invalid => false
  | .valid _ => true

def offset? : Location → Option UInt32
  | .invalid => none
  | .valid offset => some offset

def rank : Location → Nat
  | .invalid => 0
  | .valid offset => offset.toNat + 1

instance : LE Location := ⟨fun a b => a.rank ≤ b.rank⟩
instance : LT Location := ⟨fun a b => a.rank < b.rank⟩
instance (a b : Location) : Decidable (a ≤ b) := inferInstanceAs (Decidable (a.rank ≤ b.rank))
instance (a b : Location) : Decidable (a < b) := inferInstanceAs (Decidable (a.rank < b.rank))

theorem rank_inj {a b : Location} : a.rank = b.rank ↔ a = b := by
  constructor
  · intro h
    cases a <;> cases b <;> simp_all [rank]
    exact UInt32.toNat_inj.mp h
  · rintro rfl; rfl

def shift (distance : Int) : Location → Location
  | .invalid => .invalid
  | .valid offset => .valid (clampOffset (offset.toNat + distance))

def pastText (skip : Int) (text : String) (loc : Location) : Location :=
  loc.shift (clampDistance (skip + byteDistance text))

def display : Location → String
  | .invalid => "<invalid>"
  | .valid offset => s!"{offset.toNat}"

end Location

structure Span where
  start : Location
  stop : Location
  deriving DecidableEq, Repr

namespace Span

def unset : Span := ⟨.invalid, .invalid⟩

def isValid (s : Span) : Bool := s.start.isValid && s.stop.isValid

def isInverted (s : Span) : Bool := s.isValid && decide (s.stop < s.start)

def contains (s : Span) (loc : Location) : Bool :=
  s.isValid && loc.isValid && decide (s.start ≤ loc) && decide (loc ≤ s.stop)

def encloses (s inner : Span) : Bool := s.contains inner.start && s.contains inner.stop

def hull : List Span → Span
  | [] => unset
  | s :: rest => ⟨s.start, (rest.getLastD s).stop⟩

/-- Takes a later stop; an invalid or an earlier one changes nothing. -/
def extend (s : Span) (stop : Location) : Span :=
  if stop.isValid && !(s.stop.isValid && decide (stop < s.stop)) then { s with stop } else s

def display (s : Span) : String := s!"{s.start.display}..{s.stop.display}"

end Span
end DocTree
