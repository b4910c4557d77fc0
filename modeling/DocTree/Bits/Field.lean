import DocTree.Fault

/-! Bit fields of a 32-bit word. The plain operations wrap around the word and the
shift amounts; the guards name what a checked run refuses beforehand. -/
namespace DocTree

structure Field where
  offset : UInt32
  width : UInt32
  deriving DecidableEq, Repr

namespace Field

def stop (f : Field) : UInt32 := f.offset + f.width

def after (previous : Field) (width : UInt32) : Field := ⟨previous.stop, width⟩

def maxValue (f : Field) : UInt32 := ((1 : UInt64) <<< f.width.toUInt64 - 1).toUInt32

def mask (f : Field) : UInt32 := f.maxValue <<< f.offset

def get (f : Field) (word : UInt32) : UInt32 := (word &&& f.mask) >>> f.offset

def set (f : Field) (word value : UInt32) : UInt32 :=
  (word &&& ~~~f.mask) ||| ((value <<< f.offset) &&& f.mask)

def flag (f : Field) (word : UInt32) : Bool := f.get word != 0

def overlaps (f g : Field) : Bool := f.mask &&& g.mask != 0

def guardStop (m : Mode) (f : Field) : Run Unit :=
  m.demand (decide (f.offset.toNat + f.width.toNat < 4294967296)) .addOverflow

def guardMaxValue (m : Mode) (f : Field) : Run Unit :=
  m.demand (decide (f.width < 64)) .shiftOverflow

def guardMask (m : Mode) (f : Field) : Run Unit := do
  f.guardMaxValue m
  m.demand (decide (f.offset < 32)) .shiftOverflow

def guardSet (m : Mode) (f : Field) (value : UInt32) : Run Unit := do
  f.guardMaxValue m
  m.demand (decide (value ≤ f.maxValue)) (.valueTooWide value f.width)
  f.guardMask m

def stopIn (m : Mode) (f : Field) : Run UInt32 := do f.guardStop m; return f.stop

def afterIn (m : Mode) (previous : Field) (width : UInt32) : Run Field := do
  previous.guardStop m; return previous.after width

def maxValueIn (m : Mode) (f : Field) : Run UInt32 := do f.guardMaxValue m; return f.maxValue

def maskIn (m : Mode) (f : Field) : Run UInt32 := do f.guardMask m; return f.mask

def getIn (m : Mode) (f : Field) (word : UInt32) : Run UInt32 := do
  f.guardMask m; return f.get word

def setIn (m : Mode) (f : Field) (word value : UInt32) : Run UInt32 := do
  f.guardSet m value; return f.set word value

def overlapsIn (m : Mode) (f g : Field) : Run Bool := do
  f.guardMask m
  g.guardMask m
  return f.overlaps g

end Field
end DocTree
