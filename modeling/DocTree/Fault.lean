/-! Broken preconditions. An operation that may break one runs in `Run`; which of
them are looked for at all depends on the `Mode`. -/
namespace DocTree

/-- With `checked`, arithmetic that leaves its word and content of the wrong kind are
faults; with `unchecked`, words wrap around and content is taken as it comes. -/
inductive Mode where
  | checked
  | unchecked
  deriving DecidableEq, Repr

inductive Fault where
  | addOverflow
  | shiftOverflow
  | valueTooWide (value width : UInt32)
  | kindImmutable
  | paragraphContent
  | commentContent
  | unknownCommand (name : String)
  | outOfBounds (size index : Nat)
  | unresolvedIndex
  | unresolvedPosition
  | sentinelIndex
  | emptyPosition
  | blocked
  deriving DecidableEq, Repr

abbrev Run := Except Fault

theorem bindOk {α β : Type} {x : Run α} {f : α → Run β} {b : β} :
    x >>= f = .ok b ↔ ∃ a, x = .ok a ∧ f a = .ok b := by
  cases x with
  | error fault => exact ⟨nofun, nofun⟩
  | ok a => exact ⟨fun h => ⟨a, rfl, h⟩, fun ⟨_, same, h⟩ => Except.ok.inj same ▸ h⟩

def Fault.message : Fault → String
  | .addOverflow => "attempt to add with overflow"
  | .shiftOverflow => "attempt to shift left with overflow"
  | .valueTooWide value width =>
    s!"value {value.toNat} does not fit in {width.toNat} bits"
  | .kindImmutable => "kind is immutable"
  | .paragraphContent => "Paragraph children must be inline content"
  | .commentContent => "FullComment children must be block content"
  | .unknownCommand name => s!"unknown command '{name}'"
  | .outOfBounds size index => s!"index out of bounds: the len is {size} but the index is {index}"
  | .unresolvedIndex => "param index read before \\param was resolved"
  | .unresolvedPosition => "position read before \\tparam was resolved"
  | .sentinelIndex => "set_param_index called with the unresolved sentinel"
  | .emptyPosition => "set_position called with an empty position"
  | .blocked => "cache read never ends"

def Mode.demand (m : Mode) (holds : Bool) (fault : Fault) : Run Unit :=
  match m with
  | .checked => if holds then .ok () else .error fault
  | .unchecked => .ok ()

def entryAt {α : Type} (xs : List α) (index : Nat) : Run α :=
  match xs[index]? with
  | some x => .ok x
  | none => .error (.outOfBounds xs.length index)

end DocTree
