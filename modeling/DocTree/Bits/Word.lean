import DocTree.Bits.Layout
import DocTree.Kind

/-! The packed word of a node, and the flags in it that are computed on their first
read. Such a cache has three fields: valid, value and busy. The first reader sets
busy, computes, and publishes with one exclusive or that clears busy and sets valid;
a reader that finds busy set and valid clear waits. -/
namespace DocTree

structure Word where
  raw : UInt32
  deriving DecidableEq, Repr

structure Cache where
  valid : Field
  value : Field
  busy : Field
  deriving DecidableEq, Repr

namespace Layout

def textCache : Cache := ⟨textWhitespaceValid, textWhitespace, textWhitespaceBusy⟩

def paragraphCache : Cache :=
  ⟨paragraphWhitespaceValid, paragraphWhitespace, paragraphWhitespaceBusy⟩

end Layout

namespace Word

def ofKind (k : Kind) : Word := ⟨Layout.kind.set 0 (UInt32.ofNat k.number)⟩

/-- The stored kind; a number that belongs to no kind reads as text. -/
def kind (w : Word) : Kind := (Kind.ofNumber? (Layout.kind.get w.raw).toNat).getD .text

def get (f : Field) (w : Word) : UInt32 := f.get w.raw

def flag (f : Field) (w : Word) : Bool := f.flag w.raw

def set (f : Field) (value : UInt32) (w : Word) : Word := ⟨f.set w.raw value⟩

def setFlag (f : Field) (value : Bool) (w : Word) : Word := w.set f value.toUInt32

/-- A copy carries every bit along, those of a running computation too. -/
def copy (w : Word) : Word := ⟨w.raw⟩

def cached? (c : Cache) (w : Word) : Option Bool :=
  if c.valid.flag w.raw then some (c.value.flag w.raw) else none

inductive Reading where
  | answer (value : Bool)
  | compute
  | wait
  deriving DecidableEq, Repr

def reading (c : Cache) (w : Word) : Reading :=
  if c.valid.flag w.raw then .answer (c.value.flag w.raw)
  else if c.busy.flag w.raw then .wait
  else .compute

def claim (c : Cache) (w : Word) : Word := ⟨w.raw ||| c.busy.mask⟩

def publish (c : Cache) (computed : Bool) (w : Word) : Word :=
  ⟨w.raw ^^^ (c.busy.mask ||| c.valid.mask ||| (if computed then c.value.mask else 0))⟩

def readCache {σ : Type} (c : Cache) (compute : σ → Run (Bool × σ)) (s : σ) (w : Word) :
    Run (Bool × σ × Word) :=
  match w.reading c with
  | .answer value => .ok (value, s, w)
  | .wait => .error .blocked
  | .compute => do
    let (computed, s) ← compute s
    return (computed, s, (w.claim c).publish c computed)

def hex (w : Word) : String :=
  String.ofList ((List.range 8).map fun i => Nat.digitChar (w.raw.toNat / Nat.pow 16 (7 - i) % 16))

def display (w : Word) : String := s!"PackedBits(0x{w.hex})"

end Word
end DocTree
