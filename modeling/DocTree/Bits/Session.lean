import DocTree.Bits.Word

/-! Runs of operations on one word, with any fields. In `checked` mode every shift
is guarded and no write may touch the kind. -/
namespace DocTree.Word

inductive Action where
  | set (field : Field) (value : UInt32)
  | setFlag (field : Field) (value : Bool)
  | get (field : Field)
  | flag (field : Field)
  | cached (valid value : Field)
  | readCache (cache : Cache) (computed : Bool)
  | copy
  deriving DecidableEq, Repr

inductive Answer where
  | done
  | number (value : UInt32)
  | flag (value : Bool)
  | cached (value : Option Bool)
  | read (value : Bool) (computations : Nat)
  deriving DecidableEq, Repr

def setIn (m : Mode) (f : Field) (value : UInt32) (w : Word) : Run Word := do
  match m with
  | .checked =>
    let overlapping ← f.overlapsIn m Layout.kind
    if overlapping then throw .kindImmutable
  | .unchecked => pure ()
  return ⟨← f.setIn m w.raw value⟩

def cachedIn (m : Mode) (valid value : Field) (w : Word) : Run (Option Bool) := do
  if (← valid.getIn m w.raw) = 0 then return none
  return some ((← value.getIn m w.raw) != 0)

def claimIn (m : Mode) (c : Cache) (w : Word) : Run (Option Bool × Word) := do
  c.valid.guardMask m
  match w.reading c with
  | .answer value =>
    c.value.guardMask m
    return (some value, w)
  | .wait =>
    c.busy.guardMask m
    throw .blocked
  | .compute =>
    c.busy.guardMask m
    return (none, w.claim c)

def publishIn (m : Mode) (c : Cache) (computed : Bool) (w : Word) : Run Word := do
  if computed then c.value.guardMask m
  return w.publish c computed

def readCacheIn (m : Mode) (c : Cache) (computed : Bool) (w : Word) : Run (Answer × Word) := do
  match ← w.claimIn m c with
  | (some value, w) => return (.read value 0, w)
  | (none, w) => return (.read computed 1, ← w.publishIn m c computed)

def act (m : Mode) (action : Action) (w : Word) : Run (Answer × Word) :=
  match action with
  | .set f value => do return (.done, ← w.setIn m f value)
  | .setFlag f value => do return (.done, ← w.setIn m f value.toUInt32)
  | .get f => do return (.number (← f.getIn m w.raw), w)
  | .flag f => do return (.flag ((← f.getIn m w.raw) != 0), w)
  | .cached valid value => do return (.cached (← w.cachedIn m valid value), w)
  | .readCache c computed => w.readCacheIn m c computed
  | .copy => .ok (.done, w.copy)

/-- The word after a fault. A fault takes no claim back. -/
def left (m : Mode) (action : Action) (w : Word) : Word :=
  match action with
  | .readCache c _ =>
    match w.claimIn m c with
    | .ok (_, claimed) => claimed
    | .error _ => w
  | _ => w

def step (m : Mode) (w : Word) (action : Action) : Except Fault Answer × Word :=
  match w.act m action with
  | .ok (answer, next) => (.ok answer, next)
  | .error fault => (.error fault, w.left m action)

def run (m : Mode) (w : Word) : List Action → List (Except Fault Answer × Word)
  | [] => []
  | action :: rest =>
    let next := w.step m action
    next :: run m next.2 rest

end DocTree.Word
